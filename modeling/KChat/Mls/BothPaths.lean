import KChat.Mls.Calm
import KChat.Mls.PlainTracking
import KChat.Mls.Rollback

/-!
# The two ways to process a batch of handshake messages

`process_many_operation_messages` stores a proposal before it goes on, `process_all_messages` only
looks at it. So the second rejects a commit that refers to a proposal of the batch.

* `CommitView`: what of a group and its store commits look at; `CommitView.Lawful`: what OpenMLS
  makes of references to proposals. `MergesTo`: a commit is accepted and merged.
* `Applied`: what the first way does; `processManyLoop_applied`.
* `Abreast`, `Left`: the second way keeps up, or it does not; `abreast_step`, `left_step`,
  **`operationLoop_abreast`**, **`operationLoop_left`**.
* **`bothPaths_iff`**.
-/

namespace KChat.Mls

open Lib OpenMls

/-! ## What commits look at -/

variable {M : CommitMls}

def MergesTo (m : M.ProtocolMessage) (s u : Owning M.Group M.Db) : Prop :=
  ∃ processed commit t, (M.processMessage m none).run s = .ok processed t ∧
    processed.content = .stagedCommitMessage commit ∧
    (M.mergeStagedCommit commit none).run t = .ok () u

variable (M) in
/-- **What commits look at**: a group and its store, apart from the queue of proposals and a pending
commit. A protocol message tells what it is and which proposals it refers to. -/
structure CommitView where
  View : Type
  Reference : Type
  view : Owning M.Group M.Db → View
  queue : M.Group → Set Reference
  contentType : M.ProtocolMessage → ContentType
  references : M.ProtocolMessage → Set Reference

/-- **References to proposals**: a commit is accepted only in its epoch and if the proposals it refers
to are in the queue; apart from them it does not matter what is in the queue. Only merging a commit
and storing proposals changes a group. -/
structure CommitView.Lawful (V : CommitView M) : Prop where
  content : ∀ m s, wp (M.processMessage m none) s
    (fun processed _ => ContentType.of processed.content = V.contentType m) fun _ _ => True
  epoch : ∀ {s t}, V.view s = V.view t → M.epoch s.self = M.epoch t.self
  treeHash : ∀ {s t}, V.view s = V.view t → M.treeHash s.self = M.treeHash t.self
  processMessage : ∀ m s, V.view (final ((M.processMessage m none).run s)) = V.view s
  storePendingProposal : ∀ p s, wp (M.storePendingProposal p none) s
    (fun _ t => V.view t = V.view s) fun _ _ => True
  commitToPendingProposals : ∀ signer s, wp (M.commitToPendingProposals signer none) s
    (fun _ t => V.view t = V.view s) fun _ _ => True
  accepted : ∀ m s, V.contentType m = .commit → wp (M.processMessage m none) s
    (fun _ _ => V.references m ⊆ V.queue s.self ∧ M.messageEpoch m = M.epoch s.self) fun _ _ => True
  merged : ∀ {m s u}, MergesTo m s u → V.queue u.self = ∅ ∧ M.epoch u.self = M.epoch s.self + 1
  alike : ∀ {m s s' u}, V.contentType m = .commit → V.view s = V.view s' →
    V.references m ⊆ V.queue s'.self → MergesTo m s u → ∃ u', MergesTo m s' u' ∧ V.view u' = V.view u
  loads : ∀ m s, M.loadOptimize none (final ((M.processMessage m none).run s)).world =
    M.loadOptimize none s.world ∧
    M.load none (final ((M.processMessage m none).run s)).world = M.load none s.world
  fewer : ∀ db id {epochs epochs'}, epochs' ⊆ epochs →
    (∀ g, M.loadOptimize none db id epochs = .ok (some g) →
      M.loadOptimize none db id epochs' = .ok (some g)) ∧
    (M.loadOptimize none db id epochs = .error .missingGroupEpochMessageSecretsMetadata →
      M.loadOptimize none db id epochs' = .error .missingGroupEpochMessageSecretsMetadata)

/-- The tag of a message is the type of its content. -/
def ContentType.tag : ContentType → MessageType
  | .commit => .commit
  | .proposal => .proposal
  | .application => .unknown

/-- **A handshake message** with its correct tag. -/
def CommitView.Tagged (V : CommitView M) (msg : MlsMessage) : Prop :=
  ∃ m, protocolMessage msg.blob = .ok m ∧ V.contentType m ≠ .application ∧
    (V.contentType m).tag = msg.messageType

/-- **The references of the commits are resolved**: the first commit refers to proposals of the
queue, and the others refer to none. -/
def CommitView.Resolved (V : CommitView M) (queue : Set V.Reference) : List MlsMessage → Prop
  | [] => True
  | msg :: messages =>
    if msg.messageType = .commit then
      (∀ m, protocolMessage msg.blob = .ok m → V.references m ⊆ queue) ∧ V.Resolved ∅ messages
    else V.Resolved queue messages

/-! ## The first way -/

variable {V : CommitView M}

theorem CommitView.Resolved.of_no_commit {queue : Set V.Reference} {messages : List MlsMessage}
    (h : ∀ msg ∈ messages, msg.messageType ≠ .commit) : V.Resolved queue messages := by
  induction messages with
  | nil => trivial
  | cons msg messages ih =>
    rw [CommitView.Resolved, if_neg (h msg List.mem_cons_self)]
    exact ih fun x hx => h x (List.mem_cons_of_mem _ hx)

/-- **What a list of messages does** that is processed one by one. -/
inductive Applied (V : CommitView M) :
    List Bytes → Owning M.Group M.Db → Owning M.Group M.Db → Prop
  | nil {s : Owning M.Group M.Db} : Applied V [] s s
  | commit {blob : Bytes} {blobs : List Bytes} {m : M.ProtocolMessage} {s t u : Owning M.Group M.Db}
    (hm : protocolMessage blob = .ok m) (htype : V.contentType m = .commit) (hmerges : MergesTo m s t)
    (hrest : Applied V blobs t u) : Applied V (blob :: blobs) s u
  | other {blob : Bytes} {blobs : List Bytes} {m : M.ProtocolMessage} {s t u : Owning M.Group M.Db}
    (hm : protocolMessage blob = .ok m) (htype : V.contentType m ≠ .commit) (hview : V.view t = V.view s)
    (hrest : Applied V blobs t u) : Applied V (blob :: blobs) s u

section applied

variable (hV : V.Lawful) {env : Surroundings M.toOpenMls} (hcalm : ∀ t, env.fault t = none)
include hV hcalm

abbrev inner (s : Owning M.Group (Session M.toOpenMls)) : Owning M.Group M.Db :=
  ⟨s.self, s.world.store⟩

theorem commitProposal_view (signer : M.Signer) (proposal : M.QueuedProposal)
    (s : Owning M.Group (Session M.toOpenMls)) :
    wp (commitProposal (M := M.toOpenMls) env signer proposal) s
      (fun _ t => V.view (inner t) = V.view (inner s)) fun _ _ => True := by
  rw [commitProposal, wp_bind, wp_use, hcalm]
  refine wp_mono (hV.storePendingProposal proposal _) (fun _ t ht => ?_) fun _ _ _ => trivial
  rw [wp_use, hcalm]
  exact wp_mono (hV.commitToPendingProposals signer _) (fun _ u hu => hu.trans ht)
    fun _ _ _ => trivial

omit hV hcalm in
theorem groupSigner_inner (s : Owning M.Group (Session M.toOpenMls)) :
    wp (groupSigner (M := M.toOpenMls) env) s (fun _ t => inner t = inner s) fun _ _ => True :=
  groupSigner_preserves (J := fun t => inner t = inner s) (F := fun _ => True) (fun _ _ => trivial)
    (fun _ h => h) s rfl

theorem processManyLoop_applied (blobs : List Bytes) (signer : Option M.Signer)
    (s : Owning M.Group (Session M.toOpenMls)) :
    wp (processManyLoop (M := M.toOpenMls) env blobs signer) s
      (fun _ t => Applied V blobs (inner s) (inner t)) fun _ _ => True := by
  induction blobs generalizing signer s with
  | nil => exact .nil
  | cons blob blobs ih =>
    rw [processManyLoop, wp_bind]
    refine wp_ofResult (fun m hm => ?_) fun _ _ => trivial
    rw [wp_bind, wp_use, hcalm]
    have hcontent := hV.content m (inner s)
    have hview := hV.processMessage m (inner s)
    cases hrun : (M.processMessage m none).run (inner s) with
    | error e t => exact (wp_of_error hrun).mpr trivial
    | ok processed t =>
      rw [hrun] at hview
      replace hcontent := (wp_of_ok hrun).mp hcontent
      refine (wp_of_ok hrun).mpr ?_
      have hproposal : ∀ (proposal : M.QueuedProposal) signer u, V.view (inner u) = V.view t →
          V.contentType m ≠ .commit → wp (do
            let _ ← commitProposal env signer proposal
            processManyLoop env blobs (some signer)) u
            (fun _ v => Applied V (blob :: blobs) (inner s) (inner v)) fun _ _ => True := by
        intro proposal signer u hu htype
        rw [wp_bind]
        refine wp_mono (commitProposal_view hV hcalm signer proposal u) (fun _ v hv => ?_)
          fun _ _ _ => trivial
        exact wp_mono (ih (some signer) v)
          (fun _ w hw => .other hm htype (hv.trans (hu.trans hview)) hw) fun _ _ _ => trivial
      have hsigned : ∀ proposal : M.QueuedProposal, V.contentType m ≠ .commit →
          ∀ u, V.view (inner u) = V.view t → wp (do
            let signer ← groupSigner env
            let _ ← commitProposal env signer proposal
            processManyLoop env blobs (some signer)) u
            (fun _ v => Applied V (blob :: blobs) (inner s) (inner v)) fun _ _ => True := by
        intro proposal htype u hu
        rw [wp_bind]
        refine wp_mono (groupSigner_inner u) (fun signer v hv => ?_) fun _ _ _ => trivial
        exact hproposal proposal signer v (by rw [hv]; exact hu) htype
      cases hc : processed.content with
      | stagedCommitMessage commit =>
        rw [hc] at hcontent
        rw [wp_bind, wp_use, hcalm]
        dsimp only
        cases hmerge : (M.mergeStagedCommit commit none).run t with
        | error e u => exact (wp_of_error hmerge).mpr trivial
        | ok a u =>
          refine (wp_of_ok hmerge).mpr ?_
          exact wp_mono (ih signer _)
            (fun _ v hv => .commit hm hcontent.symm ⟨processed, commit, t, hrun, hc, hmerge⟩ hv)
            fun _ _ _ => trivial
      | proposalMessage proposal =>
        rw [hc] at hcontent
        have htype : V.contentType m ≠ .commit := by rw [← hcontent]; simp [ContentType.of]
        cases signer with
        | some signer => exact hproposal proposal signer _ rfl htype
        | none => exact hsigned proposal htype _ rfl
      | externalJoinProposalMessage proposal =>
        rw [hc] at hcontent
        have htype : V.contentType m ≠ .commit := by rw [← hcontent]; simp [ContentType.of]
        cases signer with
        | some signer => exact hproposal proposal signer _ rfl htype
        | none => exact hsigned proposal htype _ rfl
      | applicationMessage bytes =>
        rw [hc] at hcontent
        have htype : V.contentType m ≠ .commit := by rw [← hcontent]; simp [ContentType.of]
        exact wp_mono (ih signer _) (fun _ v hv => .other hm htype hview hv) fun _ _ _ => trivial

end applied

theorem Applied.epoch (hV : V.Lawful) {blobs : List Bytes} {s t : Owning M.Group M.Db}
    (h : Applied V blobs s t) : M.epoch s.self ≤ M.epoch t.self := by
  induction h with
  | nil => exact le_rfl
  | commit hm htype hmerges hrest ih =>
    have hnext := (hV.merged hmerges).2
    omega
  | other hm htype hview hrest ih => rwa [hV.epoch hview] at ih

/-! ## The second way -/

section second

variable (hM : M.StoresGroups) (hV : V.Lawful) {env : Surroundings M.toOpenMls}
  (hcalm : ∀ t, env.fault t = none) (halone : ∀ t, env.others t = []) {id : String}
  {config : M.JoinConfig} {latestEpoch : ℕ} {msg : MlsMessage} {m : M.ProtocolMessage}
  {l : Progress M.toOpenMls} {s : Session M.toOpenMls} {g : M.Group} {w w' : Owning M.Group M.Db}

/-- The group can be loaded again for any of the messages, unless it was already. -/
def Reloads (id : String) (messages : List MlsMessage) (l : Progress M.toOpenMls) (db : M.Db) : Prop :=
  l.commitGroupLoaded ∨
    ∀ msg ∈ messages, ∃ g, loadResult M.toOpenMls db id [msg.epoch] = .ok g

/-- **The second way keeps up** with the first one: the group in memory is the stored one, and it
looks as there. -/
structure Abreast (V : CommitView M) (id : String) (w : Owning M.Group M.Db) (g : M.Group)
    (l : Progress M.toOpenMls) (s : Session M.toOpenMls) : Prop where
  error : l.error = none
  memory : l.mlsGroup = some g
  stored : M.stored s.store id = some g
  view : V.view w = V.view ⟨g, s.store⟩

/-- **The second way is left**, or there is no group in memory. -/
structure Left (id : String) (g : M.Group) (l : Progress M.toOpenMls) (s : Session M.toOpenMls) :
    Prop where
  stored : M.stored s.store id = some g
  memory : l.error = none → l.mlsGroup = none ∨ l.mlsGroup = some g

include hcalm halone

omit halone in
theorem processMessage_calm (s : Owning M.Group (Session M.toOpenMls)) {α : Type}
    {k : M.Processed → GroupAction M.toOpenMls α} {Q : α → Owning M.Group (Session M.toOpenMls) → Prop}
    {E : Error → Owning M.Group (Session M.toOpenMls) → Prop} :
    wp (use env .processMessage (M.processMessage m) >>= k) s Q E ↔
      wp (M.processMessage m none) (inner s)
        (fun a t => wp (k a) ⟨t.self, { s.world with store := t.world }.tick⟩ Q E)
        fun e t => E (.processMessage e) ⟨t.self, { s.world with store := t.world }.tick⟩ := by
  rw [wp_bind, wp_use, hcalm]

theorem applied_calm (hm : protocolMessage msg.blob = .ok m) {u : Owning M.Group M.Db}
    (hmerges : MergesTo m ⟨g, s.store⟩ u) :
    wp (transactionOn env (processOperationMessage env msg.blob)) ⟨g, s⟩
      (fun _ t => t.self = u.self ∧ t.world.store = u.world) fun _ _ => False := by
  obtain ⟨processed, commit, t, hprocess, hcontent, hmerge⟩ := hmerges
  refine wp_mono (wp_transactionOn_calm (Q := fun _ g' db => g' = u.self ∧ db = u.world)
    (E := fun _ => False) hcalm halone fun s' hs' => ?_) (fun _ _ h => h) fun _ _ h => h.1
  rw [← hs'] at hprocess
  rw [processOperationMessage, wp_bind]
  refine wp_ofResult (fun m' hm' => ?_) fun e he => (by rw [hm] at he; cases he)
  rw [hm] at hm'
  obtain rfl := Except.ok.inj hm'
  rw [processMessage_calm hcalm, wp_of_ok hprocess, hcontent]
  dsimp only
  rw [wp_bind, wp_use, hcalm]
  exact (wp_of_ok hmerge).mpr ⟨rfl, rfl⟩

include hM hV

theorem rejected_calm (hm : protocolMessage msg.blob = .ok m) (htype : V.contentType m = .commit)
    (hrejected : ¬(V.references m ⊆ V.queue g ∧ M.messageEpoch m = M.epoch g)) :
    wp (transactionOn env (processOperationMessage env msg.blob)) ⟨g, s⟩
      (fun _ _ => False) fun _ t => t.self = g ∧ t.world.store = s.store := by
  refine wp_transactionOn_calm (Q := fun _ _ _ => False) (E := (· = g)) hcalm halone fun s' _ => ?_
  rw [processOperationMessage, wp_bind]
  refine wp_ofResult (fun m' hm' => ?_) fun _ _ => rfl
  rw [hm] at hm'
  obtain rfl := Except.ok.inj hm'
  rw [processMessage_calm hcalm]
  have haccepted := hV.accepted m ⟨g, s'.store⟩ htype
  have hreads := hM.processMessage m none ⟨g, s'.store⟩
  cases hrun : (M.processMessage m none).run ⟨g, s'.store⟩ with
  | ok processed t => exact absurd ((wp_of_ok hrun).mp haccepted) hrejected
  | error e t =>
    rw [hrun] at hreads
    exact (wp_of_error hrun).mpr hreads.1

omit hV in
variable (msg) in
theorem reload_calm (hstored : M.stored s.store id = some g) (hmemory : l.mlsGroup = some g) :
    (l.reload env id msg s).1.mlsGroup = some g ∧ (l.reload env id msg s).2.store = s.store ∧
      (Reloads id [msg] l s.store → (l.reload env id msg s).1.error = l.error ∧
        (l.reload env id msg s).1.commitGroupLoaded = true) := by
  have hload := load_calm hcalm halone id [msg.epoch] s
  by_cases hloaded : l.commitGroupLoaded
  · rw [Progress.reload_of_loaded hloaded]
    exact ⟨hmemory, rfl, fun _ => ⟨rfl, hloaded⟩⟩
  cases hrun : (loadGroupWithEpochMessageSecrets env id [msg.epoch]).run s with
  | ok g' t =>
    obtain ⟨hresult, hstore, -⟩ := (wp_of_ok hrun).mp hload
    rw [Progress.reload_of_ok hloaded hrun]
    have hsame : some g' = some g := (stored_of_loadResult hM hresult).symm.trans hstored
    exact ⟨hsame, hstore, fun _ => ⟨rfl, rfl⟩⟩
  | error e t =>
    obtain ⟨hresult, hstore, -⟩ := (wp_of_error hrun).mp hload
    rw [Progress.reload_of_error hloaded hrun, Progress.stopIfFatal_mlsGroup]
    refine ⟨hmemory, hstore, fun hreloads => ?_⟩
    rcases hreloads with hreloads | hreloads
    · exact absurd hreloads hloaded
    · obtain ⟨g', hg'⟩ := hreloads msg (List.mem_singleton_self msg)
      rw [hresult] at hg'
      cases hg'

/-- **A commit that is left out.** -/
theorem left_step (hleft : Left id g l s) (herror : l.error = none)
    (hm : protocolMessage msg.blob = .ok m) (htype : V.contentType m = .commit)
    (hcommit : msg.messageType = .commit)
    (hrejected : l.mlsGroup = none ∨ ¬(V.references m ⊆ V.queue g ∧ M.messageEpoch m = M.epoch g)) :
    Left id g (l.step env id config latestEpoch msg s).1 (l.step env id config latestEpoch msg s).2 ∧
      (l.mlsGroup = none → (l.step env id config latestEpoch msg s).1.mlsGroup = none) := by
  unfold Progress.step
  rw [hcommit]
  dsimp only
  rcases hleft.memory herror with hnone | hsome
  · have harm : l.commitArm env id msg s = (l.dropRemoved msg, s) := by
      unfold Progress.commitArm
      rw [hnone]
      rfl
    rw [harm]
    refine ⟨⟨hleft.stored, fun _ => .inl ?_⟩, fun _ => ?_⟩
    · rw [Progress.dropRemoved_mlsGroup, hnone]
    · rw [Progress.dropRemoved_mlsGroup, hnone]
  refine ⟨?_, fun hnone => by rw [hsome] at hnone; cases hnone⟩
  replace hrejected := hrejected.resolve_left (by rw [hsome]; exact Option.some_ne_none g)
  obtain ⟨hmemory, hstore, -⟩ := reload_calm hM hcalm halone msg hleft.stored hsome
  have happly : (Progress.applyCommit env id msg (l.reload env id msg s).1
        (l.reload env id msg s).2).1.mlsGroup = some g ∧
      (Progress.applyCommit env id msg (l.reload env id msg s).1
        (l.reload env id msg s).2).2.store = s.store := by
    have hspec := rejected_calm hM hV hcalm halone (g := g) (s := (l.reload env id msg s).2)
      hm htype hrejected
    obtain ⟨text, t, hrun, hself, hworld⟩ := exists_error_of_wp hspec
    rw [Progress.applyCommit_of_error hmemory hrun, Progress.stopIfFatal_mlsGroup]
    exact ⟨congrArg some hself, hworld.trans hstore⟩
  have hsome' : l.mlsGroup.isSome := by rw [hsome]; rfl
  unfold Progress.commitArm
  rw [if_pos hsome']
  dsimp only
  split_ifs with hreload
  · exact ⟨by rw [hstore]; exact hleft.stored, fun _ => .inr hmemory⟩
  · exact ⟨by rw [happly.2]; exact hleft.stored, fun _ => .inr happly.1⟩
  · refine ⟨by rw [happly.2]; exact hleft.stored, fun _ => .inr ?_⟩
    rw [Progress.dropRemoved_mlsGroup]
    exact happly.1

theorem abreast_step (hab : Abreast V id w g l s) (hm : protocolMessage msg.blob = .ok m)
    (htype : V.contentType m = .commit) (hcommit : msg.messageType = .commit)
    (hmerges : MergesTo m w w') (hresolved : V.references m ⊆ V.queue g)
    (hreloads : Reloads id [msg] l s.store) :
    ∃ g', Abreast V id w' g' (l.step env id config latestEpoch msg s).1
        (l.step env id config latestEpoch msg s).2 ∧ V.queue g' = ∅ ∧
      (l.step env id config latestEpoch msg s).1.commitGroupLoaded = true := by
  obtain ⟨hmemory, hstore, hload⟩ := reload_calm hM hcalm halone msg hab.stored hab.memory
  obtain ⟨herror, hloaded⟩ := hload hreloads
  rw [hab.error] at herror
  generalize hr : l.reload env id msg s = r at hmemory hstore herror hloaded
  obtain ⟨u, hmerges', hview⟩ := hV.alike htype hab.view hresolved hmerges
  rw [← hstore] at hmerges'
  have hspec := applied_calm hcalm halone hm hmerges'
  obtain ⟨result, t, hrun, hself, hworld⟩ := exists_run_of_wp hspec
  have hsynced := transactionOn_spec env (processOperationMessage_faithful env hM msg.blob) ⟨g, r.2⟩
  obtain ⟨hid, hstored⟩ := (wp_of_ok hrun).mp hsynced
  have hgid : M.groupId g = id := hM.groupId hab.stored
  have hstored' : M.stored t.world.store id = some t.self := by
    have hsync : Synced (M := M.toOpenMls) ⟨g, r.2.await env⟩ := by
      rw [Synced, Session.await_store_of_alone halone, hstore, hgid]
      exact hab.stored
    have ht := hstored hsync
    rwa [Synced, show M.groupId t.self = id from hid.trans hgid] at ht
  have happly : Progress.applyCommit env id msg r.1 r.2 = _ :=
    Progress.applyCommit_of_ok hmemory hrun
  have harm : l.step env id config latestEpoch msg s =
      (Progress.dropRemoved msg { r.1 with mlsGroup := some t.self }, t.world) := by
    unfold Progress.step
    rw [hcommit]
    dsimp only
    rw [Progress.commitArm_of_continue (by rw [hab.memory]; rfl) (by rw [hr]; exact herror)
      (by rw [hr, happly]; exact herror), hr, happly]
  rw [harm]
  refine ⟨t.self, ⟨?_, ?_, hstored', ?_⟩, ?_, ?_⟩
  · rw [Progress.dropRemoved_error]
    exact herror
  · rw [Progress.dropRemoved_mlsGroup]
  · rw [hself, hworld]
    exact hview.symm
  · rw [hself]
    exact (hV.merged hmerges').1
  · rw [Progress.dropRemoved_commitGroupLoaded]
    exact hloaded

/-! ## The whole list -/

omit hM hV hcalm halone in
theorem step_proposal (hproposal : msg.messageType = .proposal) :
    l.step env id config latestEpoch msg s = (l.proposalArm latestEpoch msg, s) := by
  unfold Progress.step
  rw [hproposal]

/-- **From where the second way is left** the stored group stays as it is. -/
theorem operationLoop_left {messages : List MlsMessage}
    (happlied : Applied V (messages.map MlsMessage.blob) w w') (htagged : ∀ msg ∈ messages, V.Tagged msg)
    (hleft : Left id g l s) (hbehind : l.mlsGroup = none ∨ M.epoch g < M.epoch w.self) :
    M.stored (operationLoop env id config latestEpoch messages l s).2.store id = some g := by
  induction messages generalizing w l s with
  | nil => exact hleft.stored
  | cons msg messages ih =>
    by_cases herror : l.error = none
    swap
    · rw [operationLoop_of_error (Option.isSome_iff_ne_none.mpr herror)]
      exact hleft.stored
    have hrest : ∀ x ∈ messages, V.Tagged x := fun x hx => htagged x (List.mem_cons_of_mem _ hx)
    obtain ⟨m', hm', htype', htag⟩ := htagged msg List.mem_cons_self
    rw [operationLoop, if_neg (by rw [herror]; exact Bool.false_ne_true)]
    dsimp only
    cases happlied with
    | @commit _ _ m _ t _ hm htype hmerges happlied =>
      rw [hm] at hm'
      obtain rfl := Except.ok.inj hm'
      have hcommit : msg.messageType = .commit := by rw [← htag, htype]; rfl
      have hnext := (hV.merged hmerges).2
      have haccepted : M.messageEpoch m = M.epoch w.self := by
        obtain ⟨processed, commit, u, hprocess, -, -⟩ := hmerges
        exact ((wp_of_ok hprocess).mp (hV.accepted m w htype)).2
      obtain ⟨hleft', hnone⟩ := left_step hM hV hcalm halone hleft herror hm htype hcommit
        (hbehind.imp (fun h => h) fun hlt hboth => by have := hboth.2; omega)
      exact ih happlied hrest hleft' (hbehind.imp hnone fun hlt => by omega)
    | @other _ _ m _ t _ hm htype hview happlied =>
      rw [hm] at hm'
      obtain rfl := Except.ok.inj hm'
      have hproposal : msg.messageType = .proposal := by
        rw [← htag]
        cases hc : V.contentType m with
        | commit => exact absurd hc htype
        | proposal => rfl
        | application => exact absurd hc htype'
      rw [step_proposal hproposal]
      refine ih happlied hrest ⟨hleft.stored, fun _ => ?_⟩ ?_
      · rw [Progress.proposalArm_mlsGroup]
        exact hleft.memory herror
      · rw [Progress.proposalArm_mlsGroup, hV.epoch hview]
        exact hbehind

variable (config latestEpoch) in
/-- **While the second way keeps up**: it ends as the first one if the references are resolved, and
in an earlier epoch otherwise. -/
theorem operationLoop_abreast {messages : List MlsMessage}
    (happlied : Applied V (messages.map MlsMessage.blob) w w') (htagged : ∀ msg ∈ messages, V.Tagged msg)
    (hab : Abreast V id w g l s) (hreloads : Reloads id messages l s.store) :
    ∃ g', M.stored (operationLoop env id config latestEpoch messages l s).2.store id = some g' ∧
      (V.Resolved (V.queue g) messages →
        M.epoch g' = M.epoch w'.self ∧ M.treeHash g' = M.treeHash w'.self) ∧
      (¬V.Resolved (V.queue g) messages → M.epoch g' < M.epoch w'.self) := by
  induction messages generalizing w g l s with
  | nil =>
    cases happlied
    exact ⟨g, hab.stored, fun _ => ⟨(hV.epoch hab.view).symm, (hV.treeHash hab.view).symm⟩,
      fun h => absurd trivial h⟩
  | cons msg messages ih =>
    have hrest : ∀ x ∈ messages, V.Tagged x := fun x hx => htagged x (List.mem_cons_of_mem _ hx)
    obtain ⟨m', hm', htype', htag⟩ := htagged msg List.mem_cons_self
    have hnone : ¬l.error.isSome := by rw [hab.error]; exact Bool.false_ne_true
    rw [operationLoop, if_neg hnone]
    dsimp only
    cases happlied with
    | @commit _ _ m _ t _ hm htype hmerges happlied =>
      rw [hm] at hm'
      obtain rfl := Except.ok.inj hm'
      have hcommit : msg.messageType = .commit := by rw [← htag, htype]; rfl
      have hresolved : V.Resolved (V.queue g) (msg :: messages) ↔
          V.references m ⊆ V.queue g ∧ V.Resolved ∅ messages := by
        rw [CommitView.Resolved, if_pos hcommit]
        refine and_congr_left fun _ => ⟨fun h => h m hm, fun h m' hm' => ?_⟩
        rw [hm] at hm'
        obtain rfl := Except.ok.inj hm'
        exact h
      rw [hresolved]
      by_cases hrefs : V.references m ⊆ V.queue g
      · obtain ⟨g', hab', hqueue, hloaded⟩ := abreast_step hM hV hcalm halone hab hm htype hcommit
          hmerges hrefs (hreloads.imp (fun h => h) fun h x hx => h x (by
            rw [List.mem_singleton.mp hx]
            exact List.mem_cons_self))
        obtain ⟨g'', hstored, hiff⟩ := ih happlied hrest hab' (.inl hloaded)
        rw [hqueue] at hiff
        refine ⟨g'', hstored, fun h => hiff.1 h.2, fun h => hiff.2 fun h' => h ⟨hrefs, h'⟩⟩
      · have hnext := (hV.merged hmerges).2
        have hsame := hV.epoch hab.view
        dsimp only at hsame
        obtain ⟨hleft, -⟩ := left_step hM hV hcalm halone
          ⟨hab.stored, fun _ => .inr hab.memory⟩ hab.error hm htype hcommit (.inr fun h => hrefs h.1)
        have hlast := happlied.epoch hV
        refine ⟨g, operationLoop_left hM hV hcalm halone happlied hrest hleft (.inr (by omega)),
          fun h => absurd h.1 hrefs, fun _ => by omega⟩
    | @other _ _ m _ t _ hm htype hview happlied =>
      rw [hm] at hm'
      obtain rfl := Except.ok.inj hm'
      have hproposal : msg.messageType = .proposal := by
        rw [← htag]
        cases hc : V.contentType m with
        | commit => exact absurd hc htype
        | proposal => rfl
        | application => exact absurd hc htype'
      have hresolved : V.Resolved (V.queue g) (msg :: messages) ↔ V.Resolved (V.queue g) messages := by
        rw [CommitView.Resolved, if_neg (by rw [hproposal]; decide)]
      rw [hresolved, step_proposal hproposal]
      refine ih happlied hrest ⟨?_, ?_, hab.stored, hview.trans hab.view⟩ ?_
      · rw [Progress.proposalArm_error]
        exact hab.error
      · rw [Progress.proposalArm_mlsGroup]
        exact hab.memory
      · refine hreloads.imp (fun h => ?_) fun h x hx => h x (List.mem_cons_of_mem _ hx)
        rw [Progress.proposalArm_commitGroupLoaded]
        exact h

end second

/-! ## Both ways from one store -/

section both

variable {env : Surroundings M.toOpenMls} {args : AllMessagesOfGroupArgs} {config : M.JoinConfig}
  {s : Session M.toOpenMls} {g : M.Group} {w w' : Owning M.Group M.Db} {messages : List MlsMessage}

theorem Applied.unchanged_iff (hV : V.Lawful)
    (h : Applied V (messages.map MlsMessage.blob) w w') (htagged : ∀ msg ∈ messages, V.Tagged msg) :
    (M.epoch w.self = M.epoch w'.self ∧ M.treeHash w.self = M.treeHash w'.self) ↔
      ∀ msg ∈ messages, msg.messageType ≠ .commit := by
  induction messages generalizing w with
  | nil =>
    cases h
    simp
  | cons msg messages ih =>
    have hrest : ∀ x ∈ messages, V.Tagged x := fun x hx => htagged x (List.mem_cons_of_mem _ hx)
    obtain ⟨m', hm', -, htag⟩ := htagged msg List.mem_cons_self
    rw [List.forall_mem_cons]
    cases h with
    | @commit _ _ m _ t _ hm htype hmerges h =>
      rw [hm] at hm'
      obtain rfl := Except.ok.inj hm'
      have hcommit : msg.messageType = .commit := by rw [← htag, htype]; rfl
      have hnext := (hV.merged hmerges).2
      have hlast := h.epoch hV
      exact ⟨fun hsame => by omega, fun hnone => absurd hcommit hnone.1⟩
    | @other _ _ m _ t _ hm htype hview h =>
      rw [hm] at hm'
      obtain rfl := Except.ok.inj hm'
      have hother : msg.messageType ≠ .commit := by
        rw [← htag]
        cases hc : V.contentType m with
        | commit => exact absurd hc htype
        | proposal => simp [ContentType.tag]
        | application => simp [ContentType.tag]
      rw [← hV.epoch hview, ← hV.treeHash hview, ih h hrest]
      exact ⟨fun hnone => ⟨hother, hnone⟩, fun hnone => hnone.2⟩

theorem loadResult_fewer (hV : V.Lawful) {db : M.Db} {id : String} {epochs epochs' : List ℕ}
    (hsub : epochs' ⊆ epochs) (h : loadResult M.toOpenMls db id epochs = .ok g) :
    loadResult M.toOpenMls db id epochs' = .ok g := by
  obtain ⟨hok, hmissing⟩ := hV.fewer db id hsub
  unfold loadResult at h ⊢
  rcases hload : M.loadOptimize none db id epochs with (_ | text) | (_ | g')
  · rw [hload] at h
    rw [hmissing hload]
    exact h
  · rw [hload] at h
    cases h
  · rw [hload] at h
    cases h
  · rw [hload] at h
    rw [hok g' hload]
    exact h

variable (hM : M.StoresGroups) (hV : V.Lawful) (hcalm : ∀ t, env.fault t = none)
  (halone : ∀ t, env.others t = [])
include hM hV hcalm

theorem wp_processMany (halone : ∀ t, env.others t = []) (groupId : String) (blobs : List Bytes)
    (s : Session M.toOpenMls) : wp (UqMls.processManyOperationMessages env groupId blobs) s
      (fun _ t => ∃ g v, M.stored s.store groupId = some g ∧ Applied V blobs ⟨g, s.store⟩ v ∧
        M.stored t.store groupId = some v.self) fun _ _ => True := by
  have hawait : (s.await env).store = s.store := Session.await_store_of_alone halone s
  have hfaithful : Faithful (processManyOperationMessages (M := M.toOpenMls) env blobs) := by
    refine .of_preserves fun s₀ =>
      processManyOperationMessages_preserves (fun _ h => h.1) ?_ ?_ ?_ ?_ ?_ _
    · exact fun _ h => h
    · exact fun m => (Faithful.of_reads (hM.processMessage m)).preserves s₀
    · exact fun c => (Faithful.of_writes (hM.mergeStagedCommit c)).preserves s₀
    · exact fun p => (Faithful.of_writes (hM.storePendingProposal p)).preserves s₀
    · exact fun signer => (Faithful.of_writes (hM.commitToPendingProposals signer)).preserves s₀
  rw [UqMls.processManyOperationMessages, onGroup, wp_mapError]
  refine wp_transaction (fun _ _ => trivial) fun _ => ?_
  rw [wp_bind]
  refine wp_mono (group_spec hM groupId blobs _) (fun g t ht => ?_) fun _ _ _ => trivial
  obtain ⟨hg, ht⟩ := ht
  rw [Session.tick_store, hawait] at hg ht
  have happlied : wp (processManyOperationMessages (M := M.toOpenMls) env blobs) ⟨g, t⟩
      (fun _ u => Applied V blobs ⟨g, t.store⟩ (inner u)) fun _ _ => True := by
    rw [processManyOperationMessages, wp_bind]
    exact wp_mono (processManyLoop_applied hV hcalm blobs none ⟨g, t⟩) (fun _ _ hu => hu)
      fun _ _ _ => trivial
  rw [wp_bind, wp_withSelf]
  refine wp_mono (wp_and (hfaithful ⟨g, t⟩) happlied) (fun _ u hu => ?_) fun _ _ _ => trivial
  obtain ⟨⟨hid, hsync⟩, happlied⟩ := hu
  refine ⟨fun _ _ => trivial, fun _ => ⟨g, inner u, hg, ?_, ?_⟩⟩
  · rw [← ht]
    exact happlied
  · have hgid : M.groupId g = groupId := hM.groupId hg
    have hstored : Synced u := hsync (by rw [Synced, ht, hgid]; exact hg)
    rwa [Synced, show M.groupId u.self = groupId from hid.trans hgid] at hstored

include halone

/-- The group and what is stored look as before. -/
structure Unread (V : CommitView M) (id : String) (db : M.Db) (g : M.Group)
    (s : Owning M.Group M.Db) : Prop where
  self : s.self = g
  stored : M.stored s.world id = some g
  view : V.view s = V.view ⟨g, db⟩
  loadOptimize : M.loadOptimize none s.world = M.loadOptimize none db
  load : M.load none s.world = M.load none db

omit hcalm halone in
theorem Unread.processMessage {id : String} {db : M.Db} {x : Owning M.Group M.Db}
    (h : Unread V id db g x) (m : M.ProtocolMessage) :
    Unread V id db g (final ((M.processMessage m none).run x)) := by
  obtain ⟨hself, hstored⟩ := hM.processMessage m none x
  exact ⟨hself.trans h.self, (congrFun hstored id).trans h.stored,
    (hV.processMessage m x).trans h.view, (hV.loads m x).1.trans h.loadOptimize,
    (hV.loads m x).2.trans h.load⟩

theorem processProposalMessage_unread {id : String} {db : M.Db} (message : Bytes)
    (x : Owning M.Group (Session M.toOpenMls)) (hx : Unread V id db g (inner x)) :
    wp (processProposalMessage (autocommit env) message) x
      (fun _ t => Unread V id db g (inner t)) fun _ t => Unread V id db g (inner t) := by
  have hawait : (x.world.await env).store = x.world.store :=
    Session.await_store_of_alone halone x.world
  rw [processProposalMessage, wp_bind]
  refine wp_ofResult (fun m _ => ?_) fun _ _ => hx
  rw [wp_bind, wp_mapError, wp_autocommit, wp_call, hcalm, hawait]
  have hnext := hx.processMessage hM hV m
  cases hrun : (M.processMessage m none).run (inner x) with
  | error e t =>
    rw [hrun] at hnext
    exact (wp_of_error hrun).mpr hnext
  | ok processed t =>
    rw [hrun] at hnext
    refine (wp_of_ok hrun).mpr ?_
    cases processed.content with
    | proposalMessage proposal =>
      rw [wp_bind, wp_getSelf, wp_bind]
      exact wp_orThrow (fun _ _ => hnext) fun _ => hnext
    | applicationMessage _ => exact hnext
    | externalJoinProposalMessage _ => exact hnext
    | stagedCommitMessage _ => exact hnext

/-- **The first loop of the second way** looks at the proposals. -/
theorem prePass_unread {id : String} {db : M.Db} (messages : List MlsMessage)
    (p : Inspection M.toOpenMls) (s : Session M.toOpenMls) (hp : p.mlsGroup = some g)
    (hs : Unread V id db g ⟨g, s.store⟩) :
    (prePass env messages p s).1.mlsGroup = some g ∧
      Unread V id db g ⟨g, (prePass env messages p s).2.store⟩ := by
  induction messages generalizing p s with
  | nil => exact ⟨hp, hs⟩
  | cons msg messages ih =>
    have hgroup := (p.step_looked env hM msg s).1.trans hp
    refine ih _ _ hgroup ?_
    unfold Inspection.step
    dsimp only
    generalize hp' : (if p.latestEpoch < msg.epoch ∧ msg.messageType = .commit then
      { p with latestEpoch := msg.epoch } else p) = p'
    have hgroup' : p'.mlsGroup = some g := by
      rw [← hp']
      split_ifs <;> exact hp
    have hspec := processProposalMessage_unread hM hV hcalm halone msg.blob ⟨g, s⟩ hs
    have hmemory : ∀ {t : Owning M.Group (Session M.toOpenMls)},
        Unread V id db g (inner t) → Unread V id db g ⟨g, t.world.store⟩ := by
      intro t ht
      have hself : t.self = g := ht.self
      rwa [inner, hself] at ht
    split
    · rename_i g' _ hg'
      rw [hgroup'] at hg'
      obtain rfl := Option.some.inj hg'
      split
      · rename_i proposal t hrun
        exact hmemory ((wp_of_ok hrun).mp hspec)
      · rename_i e t hrun
        exact hmemory ((wp_of_error hrun).mp hspec)
    · exact hs

omit hM hV in
/-- **The second way**: what a call with this group alone does. -/
theorem wp_processAll (config : M.JoinConfig) (args : AllMessagesOfGroupArgs)
    {s : Session M.toOpenMls} (huntold : Untold args.groupId s) :
    wp (processAllMessages env config [args]) s (fun _ t =>
      match opened (loadResult M.toOpenMls s.store args.groupId (preloadEpochs args.messages)) with
      | none => t.store = s.store
      | some opening => ∃ u : Session M.toOpenMls, u.store = s.store ∧
          t = (processMessages env config args opening.mlsGroup u).2) fun _ _ => False := by
  rw [processAllMessages, wp_bind, processGroup, wp_bind]
  refine wp_mono (openGroup_calm hcalm halone args huntold) (fun o u hu => ?_) fun _ _ h => h
  obtain ⟨ho, hstore, -⟩ := hu
  rw [← ho]
  cases o with
  | none => exact hstore
  | some opening => exact ⟨u, hstore, rfl⟩

/-- The batch of handshake messages is not skipped, and the references of its commits are resolved;
or there are no commits. -/
def KeepsUp (V : CommitView M) (args : AllMessagesOfGroupArgs) (db : M.Db) : Prop :=
  (∀ msg ∈ args.messages, msg.messageType ≠ .commit) ∨
    ∃ g, loadResult M.toOpenMls db args.groupId (preloadEpochs args.messages) = .ok g ∧
      (ownIdFromLeafNode (M := M.toOpenMls) g).isSome ∧ V.Resolved (V.queue g) args.messages

def SameEpochAndTree (id : String) (s t : Session M.toOpenMls) : Prop :=
  ∃ g g', M.stored s.store id = some g ∧ M.stored t.store id = some g' ∧ M.epoch g = M.epoch g' ∧
    M.treeHash g = M.treeHash g'

/-- **Both ways agree, iff the references are resolved** and the batch is not skipped. -/
theorem sameEpochAndTree_iff {config : M.JoinConfig} {args : AllMessagesOfGroupArgs}
    {s s₁ t : Session M.toOpenMls} (htagged : ∀ msg ∈ args.messages, V.Tagged msg) {epoch : ℕ}
    (hmany : (UqMls.processManyOperationMessages env args.groupId
      (args.messages.map MlsMessage.blob)).run s = .ok epoch s₁)
    (hall : match opened (loadResult M.toOpenMls s.store args.groupId (preloadEpochs args.messages)) with
      | none => t.store = s.store
      | some opening => ∃ u : Session M.toOpenMls, u.store = s.store ∧
          t = (processMessages env config args opening.mlsGroup u).2) :
    SameEpochAndTree args.groupId s₁ t ↔ KeepsUp V args s.store := by
  obtain ⟨g, v, hg, happlied, hv⟩ :=
    (wp_of_ok hmany).mp (wp_processMany hM hV hcalm halone args.groupId _ s)
  have hunchanged := happlied.unchanged_iff hV htagged
  dsimp only at hunchanged
  have hleft : M.stored t.store args.groupId = some g →
      ((∀ msg ∈ args.messages, msg.messageType ≠ .commit) ↔
        SameEpochAndTree args.groupId s₁ t) := by
    intro hstored
    rw [← hunchanged]
    constructor
    · exact fun h => ⟨v.self, g, hv, hstored, h.1.symm, h.2.symm⟩
    · rintro ⟨g₁, g₂, h₁, h₂, hepoch, htree⟩
      obtain rfl := Option.some.inj (hv.symm.trans h₁)
      obtain rfl := Option.some.inj (hstored.symm.trans h₂)
      exact ⟨hepoch.symm, htree.symm⟩
  have hkeepsUp : (∀ g', loadResult M.toOpenMls s.store args.groupId (preloadEpochs args.messages) =
      .ok g' → ¬(ownIdFromLeafNode (M := M.toOpenMls) g').isSome) →
      ((∀ msg ∈ args.messages, msg.messageType ≠ .commit) ↔ KeepsUp V args s.store) := by
    intro hskipped
    refine ⟨.inl, fun h => h.resolve_right ?_⟩
    rintro ⟨g', hload, hown, -⟩
    exact hskipped g' hload hown
  cases hload : loadResult M.toOpenMls s.store args.groupId (preloadEpochs args.messages) with
  | error e =>
    rw [hload] at hall hkeepsUp
    obtain ⟨u, hu, rfl⟩ := hall
    obtain ⟨hgroup, hstored⟩ := prePass_keeps hM halone args.messages (.start none) u
    rw [← hleft, ← hkeepsUp fun _ h => by cases h]
    refine operationLoop_left hM hV hcalm halone happlied htagged ⟨?_, fun _ => .inl hgroup⟩
      (.inl hgroup)
    rw [hstored, hu]
    exact hg
  | ok g' =>
    obtain rfl := Option.some.inj ((stored_of_loadResult hM hload).symm.trans hg)
    by_cases hown : (ownIdFromLeafNode (M := M.toOpenMls) g').isSome
    swap
    · rw [hload, opened, if_neg hown] at hall
      rw [← hleft (by rw [hall]; exact hg), ← hkeepsUp fun g'' h => ?_]
      rw [hload] at h
      obtain rfl := Except.ok.inj h
      exact hown
    rw [hload, opened, if_pos hown] at hall
    obtain ⟨u, hu, rfl⟩ := hall
    have hunread : Unread V args.groupId s.store g' ⟨g', u.store⟩ := by
      rw [hu]
      exact ⟨rfl, hg, rfl, rfl, rfl⟩
    obtain ⟨hgroup, hread⟩ := prePass_unread hM hV hcalm halone args.messages (.start (some g')) u
      rfl hunread
    have hresolved : KeepsUp V args s.store ↔ V.Resolved (V.queue g') args.messages := by
      refine ⟨?_, fun h => .inr ⟨g', hload, hown, h⟩⟩
      rintro (hnone | ⟨g'', hload', -, h⟩)
      · exact .of_no_commit hnone
      · rw [hload] at hload'
        obtain rfl := Except.ok.inj hload'
        exact h
    have hab : Abreast V args.groupId ⟨g', s.store⟩ g' (.start
        (prePass env args.messages (.start (some g')) u).1.mlsGroup
        (prePass env args.messages (.start (some g')) u).1.membersToRemove)
        (prePass env args.messages (.start (some g')) u).2 :=
      ⟨rfl, hgroup, hread.stored, hread.view.symm⟩
    have hloads : ∀ msg ∈ args.messages, loadResult M.toOpenMls
        (prePass env args.messages (.start (some g')) u).2.store args.groupId [msg.epoch] = .ok g' := by
      intro msg hmsg
      obtain ⟨m, -, htype, htag⟩ := htagged msg hmsg
      have hepochs : [msg.epoch] ⊆ preloadEpochs args.messages := by
        intro e he
        obtain rfl := List.mem_singleton.mp he
        refine List.mem_map.mpr ⟨msg, List.mem_filter.mpr ⟨hmsg, ?_⟩, rfl⟩
        rw [← htag]
        cases V.contentType m <;> rfl
      have hafter : loadResult M.toOpenMls
          (prePass env args.messages (.start (some g')) u).2.store args.groupId [msg.epoch] =
          loadResult M.toOpenMls s.store args.groupId [msg.epoch] := by
        have hoptimize : M.loadOptimize none _ = M.loadOptimize none s.store := hread.loadOptimize
        have hplain : M.load none _ = M.load none s.store := hread.load
        unfold loadResult groupResult loadGroupResult
        rw [hoptimize, hplain]
      rw [hafter]
      exact loadResult_fewer hV hepochs hload
    obtain ⟨g'', hstored, hsame, hless⟩ := operationLoop_abreast hM hV hcalm halone config
      (prePass env args.messages (.start (some g')) u).1.latestEpoch happlied htagged hab
      (.inr fun msg hmsg => ⟨g', hloads msg hmsg⟩)
    rw [hresolved]
    constructor
    · rintro ⟨g₁, g₂, h₁, h₂, hepoch, -⟩
      obtain rfl := Option.some.inj (hv.symm.trans h₁)
      obtain rfl := Option.some.inj (hstored.symm.trans h₂)
      by_contra hnot
      have hlt := hless hnot
      omega
    · intro h
      obtain ⟨hepoch, htree⟩ := hsame h
      exact ⟨v.self, g'', hv, hstored, hepoch.symm, htree.symm⟩

end both

/-- **The two ways agree on the group, iff** the references of the commits are resolved. -/
theorem bothPaths_iff (M : CommitMls) (hM : M.StoresGroups) (V : CommitView M) (hV : V.Lawful)
    (env : Surroundings M.toOpenMls) (hcalm : ∀ t, env.fault t = none) (halone : ∀ t, env.others t = [])
    (config : M.JoinConfig) (args : AllMessagesOfGroupArgs) {s s₁ : Session M.toOpenMls}
    (huntold : Untold args.groupId s) (htagged : ∀ msg ∈ args.messages, V.Tagged msg) {epoch : ℕ}
    (hmany : (UqMls.processManyOperationMessages env args.groupId
      (args.messages.map MlsMessage.blob)).run s = .ok epoch s₁) :
    ∃ result t, (processAllMessages env config [args]).run s = .ok result t ∧
      (SameEpochAndTree args.groupId s₁ t ↔ KeepsUp V args s.store) := by
  obtain ⟨result, t, hrun, hall⟩ := exists_run_of_wp (wp_processAll hcalm halone config args huntold)
  exact ⟨result, t, hrun, sameEpochAndTree_iff hM hV hcalm halone htagged hmany hall⟩

/-! ## Without cryptography -/

open Plain

/-- Commits look at a group without its queue and its pending commit. -/
@[reducible] def plainView : CommitView plainCommits where
  View := String × ℕ × List String × String
  Reference := ℕ
  view s := (s.self.id, s.self.epoch, s.self.members, s.self.own)
  queue g := {r | r ∈ g.queue}
  contentType := contentType
  references m :=
    match m with
    | .commit _ references => {r | r ∈ references}
    | _ => ∅

namespace Plain

theorem processMessage_run (m : PlainMessage) (s : Owning PlainGroup PlainDb) :
    (plainCommits.processMessage m none).run s =
      match judge s.self m with
      | .ok r => .ok r s
      | .error e => .error e s := rfl

theorem wp_processMessage (m : PlainMessage) (s : Owning PlainGroup PlainDb)
    {Q : ProcessedMessage Unit PlainProposal → Prop} (hQ : ∀ r, judge s.self m = .ok r → Q r) :
    wp (plainCommits.processMessage m none) s (fun r t => t = s ∧ Q r) fun _ t => t = s := by
  have hrun := processMessage_run m s
  cases hjudge : judge s.self m with
  | ok r =>
    rw [hjudge] at hrun
    exact (wp_of_ok hrun).mpr ⟨rfl, hQ r hjudge⟩
  | error e =>
    rw [hjudge] at hrun
    exact (wp_of_error hrun).mpr rfl

/-- A commit is accepted in its epoch with the proposals it refers to in the queue. -/
theorem judge_commit_iff {g : PlainGroup} {epoch : ℕ} {references : List ℕ}
    {r : ProcessedMessage Unit PlainProposal} : judge g (.commit epoch references) = .ok r ↔
      epoch = g.epoch ∧ references ⊆ g.queue ∧
        r = { groupId := g.id, epoch := epoch, content := .stagedCommitMessage () } := by
  rw [judge]
  split_ifs with hepoch hreferences
  · exact ⟨fun h => (by cases h), fun h => absurd h.1 hepoch⟩
  · exact ⟨fun h => ⟨not_not.mp hepoch, hreferences, (Except.ok.inj h).symm⟩,
      fun h => congrArg Except.ok h.2.2.symm⟩
  · exact ⟨fun h => (by cases h), fun h => absurd h.2.1 hreferences⟩

theorem mergesTo_iff {m : PlainMessage} {s u : Owning PlainGroup PlainDb} :
    MergesTo (M := plainCommits) m s u ↔ ∃ references, m = .commit s.self.epoch references ∧
      references ⊆ s.self.queue ∧ u = ⟨nextEpoch s.self, write s.world (nextEpoch s.self)⟩ := by
  constructor
  · rintro ⟨processed, commit, t, hprocess, hcontent, hmerge⟩
    rw [processMessage_run] at hprocess
    split at hprocess
    · rename_i r hjudge
      obtain ⟨rfl, rfl⟩ := EStateM.Result.ok.inj hprocess
      have htype := judge_contentType hjudge
      rw [hcontent] at htype
      cases m with
      | commit epoch references =>
        obtain ⟨rfl, hreferences, -⟩ := judge_commit_iff.mp hjudge
        exact ⟨references, rfl, hreferences, (EStateM.Result.ok.inj hmerge).2.symm⟩
      | proposal epoch proposal => cases htype
      | welcome keyPackage => cases htype
    · cases hprocess
  · rintro ⟨references, rfl, hreferences, rfl⟩
    refine ⟨{ groupId := s.self.id, epoch := s.self.epoch, content := .stagedCommitMessage () },
      (), s, ?_, rfl, rfl⟩
    rw [processMessage_run, judge_commit_iff.mpr ⟨rfl, hreferences, rfl⟩]

theorem loadOptimize_fewer (db : PlainDb) (id : String) {epochs epochs' : List ℕ}
    (hepochs : epochs' ⊆ epochs) {g : PlainGroup}
    (h : plain.loadOptimize none db id epochs = .ok (some g)) :
    plain.loadOptimize none db id epochs' = .ok (some g) := by
  obtain ⟨-, hstored, hmissing⟩ := loadOptimize_eq_ok h
  have hstored' : (db.groups id).filter (fun g => g.id == id) = some g := hstored
  have hnone : (epochs'.any fun epoch => db.missing.contains epoch) = false := by
    rw [List.any_eq_false]
    intro epoch hepoch hcontains
    exact hmissing epoch (hepochs hepoch) (List.contains_iff_mem.mp hcontains)
  simp only [plain, hstored', hnone]
  rfl

end Plain

theorem plainView_lawful : plainView.Lawful where
  content m s := wp_mono (wp_processMessage m s (Q := fun r => ContentType.of r.content =
    contentType m) fun _ h => judge_contentType h) (fun _ _ h => h.2) fun _ _ _ => trivial
  epoch h := congrArg (fun v : String × ℕ × List String × String => v.2.1) h
  treeHash _ := rfl
  processMessage m s := by
    have hsame := wp_processMessage m s (Q := fun _ => True) fun _ _ => trivial
    rw [final_of_wp (P := (· = s)) (wp_mono hsame (fun _ _ h => h.1) fun _ _ h => h)]
  storePendingProposal _ _ := rfl
  commitToPendingProposals _ s := by
    by_cases h : s.self.pending = false
    · exact (wp_of_ok (changeIf_of_eq h _ _ none)).mpr rfl
    · exact (wp_of_error (changeIf_of_ne h _ _ none)).mpr trivial
  accepted m s hcommit := by
    refine wp_mono (wp_processMessage m s (Q := fun _ => plainView.references m ⊆
      plainView.queue s.self ∧ plainCommits.messageEpoch m = plainCommits.epoch s.self) ?_)
      (fun _ _ h => h.2) fun _ _ _ => trivial
    intro r hjudge
    cases m with
    | commit epoch references =>
      obtain ⟨hepoch, hreferences, -⟩ := judge_commit_iff.mp hjudge
      exact ⟨fun _ h => hreferences h, hepoch⟩
    | proposal epoch proposal => cases hcommit
    | welcome keyPackage => cases hcommit
  merged h := by
    obtain ⟨references, rfl, -, rfl⟩ := mergesTo_iff.mp h
    exact ⟨Set.eq_empty_of_forall_notMem fun _ h => List.not_mem_nil h, rfl⟩
  alike {m s s' u} hcommit hview hreferences h := by
    obtain ⟨references, rfl, -, rfl⟩ := mergesTo_iff.mp h
    have hepoch : s.self.epoch = s'.self.epoch :=
      congrArg (fun v : String × ℕ × List String × String => v.2.1) hview
    refine ⟨_, mergesTo_iff.mpr ⟨references, by rw [hepoch], fun _ h => hreferences h, rfl⟩, ?_⟩
    obtain ⟨hid, -, hmembers, hown⟩ := by simpa [plainView] using hview
    simp [plainView, nextEpoch, hid, hepoch, hmembers, hown]
  loads m s := by
    have hsame := wp_processMessage m s (Q := fun _ => True) fun _ _ => trivial
    rw [final_of_wp (P := (· = s)) (wp_mono hsame (fun _ _ h => h.1) fun _ _ h => h)]
    exact ⟨rfl, rfl⟩
  fewer db id epochs epochs' hepochs := by
    refine ⟨fun g h => loadOptimize_fewer db id hepochs h, fun h => ?_⟩
    simp only [plainCommits] at h
    split at h
    · cases h
    · split_ifs at h
      cases h

namespace Plain

def handshakes : Session plainCommits.toOpenMls where
  store := (sessionAt 1 [] []).store
  beside := []
  time := 0
  seen := 0

def proposalAt (epoch reference : ℕ) : MlsMessage where
  blob := [2, UInt8.ofNat epoch, UInt8.ofNat reference, 1]
  epoch := epoch
  sender := "2"
  messageType := .proposal

def commitOf (epoch reference : ℕ) : MlsMessage where
  blob := [1, UInt8.ofNat epoch, UInt8.ofNat reference]
  epoch := epoch
  sender := "2"
  messageType := .commit

end Plain

/-- A proposal that the commit does not refer to. -/
theorem bothPaths_iff_handshakes : ∃ s₁ result t,
    (UqMls.processManyOperationMessages .calm "g"
      ([proposalAt 1 7, commitAt 1].map MlsMessage.blob)).run handshakes = .ok 2 s₁ ∧
    (processAllMessages (M := plainCommits.toOpenMls) .calm ()
      [batch [proposalAt 1 7, commitAt 1]]).run handshakes = .ok result t ∧
    (SameEpochAndTree "g" s₁ t ↔
      KeepsUp plainView (batch [proposalAt 1 7, commitAt 1]) handshakes.store) := by
  have hmany : ∃ s₁, (UqMls.processManyOperationMessages (M := plainCommits) .calm "g"
      ([proposalAt 1 7, commitAt 1].map MlsMessage.blob)).run handshakes = .ok 2 s₁ := ⟨_, rfl⟩
  have htagged : ∀ msg ∈ [proposalAt 1 7, commitAt 1], plainView.Tagged msg := by
    intro msg hmsg
    rcases List.mem_pair.mp hmsg with rfl | rfl
    · exact ⟨_, rfl, by decide, rfl⟩
    · exact ⟨_, rfl, by decide, rfl⟩
  obtain ⟨s₁, hmany⟩ := hmany
  obtain ⟨result, t, hall, hiff⟩ := bothPaths_iff plainCommits plainCommits_storesGroups plainView
    plainView_lawful .calm (fun _ => rfl) (fun _ => rfl) ()
    (batch [proposalAt 1 7, commitAt 1]) (s := handshakes) rfl htagged hmany
  exact ⟨s₁, result, t, hmany, hall, hiff⟩

/-- A commit to a proposal of the batch: the second way rejects it. -/
theorem not_bothPaths : plainCommits.StoresGroups ∧ plainView.Lawful ∧
    ¬ ∀ (args : AllMessagesOfGroupArgs) (s s₁ t : Session plainCommits.toOpenMls) (epoch : ℕ)
      (result : ProcessAllMessagesResult),
      (∃ g, plainCommits.stored s.store args.groupId = some g ∧
        plainCommits.hasPendingCommit g = false) →
      Untold args.groupId s → (∀ msg ∈ args.messages, plainView.Tagged msg) →
      (UqMls.processManyOperationMessages (M := plainCommits) .calm args.groupId
        (args.messages.map MlsMessage.blob)).run s = .ok epoch s₁ →
      (processAllMessages (M := plainCommits.toOpenMls) .calm () [args]).run s = .ok result t →
      SameEpochAndTree args.groupId s₁ t := by
  refine ⟨plainCommits_storesGroups, plainView_lawful, fun h => ?_⟩
  have hmany : ∃ s₁, (UqMls.processManyOperationMessages (M := plainCommits) .calm "g"
      ([proposalAt 1 7, commitOf 1 7].map MlsMessage.blob)).run handshakes = .ok 2 s₁ ∧
      (plainCommits.stored s₁.store "g").map plainCommits.epoch = some 2 := ⟨_, rfl, rfl⟩
  have hepoch : (plainCommits.stored (final ((processAllMessages (M := plainCommits.toOpenMls) .calm ()
      [batch [proposalAt 1 7, commitOf 1 7]]).run handshakes)).store "g").map plainCommits.epoch =
      some 1 := by decide +kernel
  have htagged : ∀ msg ∈ [proposalAt 1 7, commitOf 1 7], plainView.Tagged msg := by
    intro msg hmsg
    rcases List.mem_pair.mp hmsg with rfl | rfl
    · exact ⟨_, rfl, by decide, rfl⟩
    · exact ⟨_, rfl, by decide, rfl⟩
  obtain ⟨s₁, hmany, hepoch₁⟩ := hmany
  have hcalm : ∀ t, (.calm : Surroundings plainCommits.toOpenMls).fault t = none := fun _ => rfl
  obtain ⟨result, t, hall, -⟩ := exists_run_of_wp (wp_processAll (M := plainCommits) hcalm
    (fun _ => rfl) () (batch [proposalAt 1 7, commitOf 1 7]) (s := handshakes) rfl)
  rw [hall] at hepoch
  obtain ⟨g, g', hg, hg', hsame, -⟩ := h (batch [proposalAt 1 7, commitOf 1 7]) handshakes s₁ t 2
    result ⟨groupAt 1, rfl, rfl⟩ rfl htagged hmany hall
  replace hg : plainCommits.stored s₁.store "g" = some g := hg
  replace hg' : plainCommits.stored t.store "g" = some g' := hg'
  replace hepoch : (plainCommits.stored t.store "g").map plainCommits.epoch = some 1 := hepoch
  rw [hg, Option.map_some, hsame] at hepoch₁
  rw [hg', Option.map_some] at hepoch
  cases (Option.some.inj hepoch₁).symm.trans (Option.some.inj hepoch)

end KChat.Mls
