import KChat.Mls.Calm

/-!
# Sessions that a batch cannot tell apart

* `Comparison`: which stores count as alike, and the groups and Welcomes at hand.
  `Comparison.Respected`: OpenMLS does the same on stores that are alike.
* `Comparison.Alike`: sessions that are alike. While no failure comes and nobody else writes, from
  sessions that are alike the same is done: **`openGroup_alike`**, **`processMessages_alike`**.
-/

namespace KChat.Mls

open Lib OpenMls

variable {M : OpenMls} {α ω : Type}

/-! ## Stores that are alike -/

/-- **A comparison of stores**, as far as some groups and Welcomes are concerned. -/
structure Comparison (M : OpenMls) where
  store : M.Db → M.Db → Prop
  statuses : GroupStatuses → GroupStatuses → Prop
  groups : M.Group → Prop
  welcomes : M.Welcome → Prop
  staged : M.StagedWelcome → Prop

namespace Comparison

/-- The same object on stores that are alike. -/
structure On (C : Comparison M) (P : ω → Prop) (u v : Owning ω M.Db) : Prop where
  self : u.self = v.self
  holds : P u.self
  store : C.store u.world v.world

/-- A method does the same to a group on stores that are alike. -/
abbrev Same (C : Comparison M) (x : EStateM String (Owning M.Group M.Db) α) : Prop :=
  Sim (C.On C.groups) (C.On C.groups) x x

/-- **OpenMLS does the same on stores that are alike**, and so does the status table of a group. -/
structure Respected (C : Comparison M) (id : String) : Prop where
  loadOptimize : ∀ epochs {db db'}, C.store db db' →
    M.loadOptimize none db id epochs = M.loadOptimize none db' id epochs
  load : ∀ {db db'}, C.store db db' → M.load none db id = M.load none db' id
  loaded : ∀ {g}, M.groupId g = id → C.groups g
  readSignatureKeyPair : ∀ {g leaf db db'}, C.groups g → M.ownLeaf g = some leaf → C.store db db' →
    M.readSignatureKeyPair none db leaf = M.readSignatureKeyPair none db' leaf
  processMessage : ∀ m, C.Same (M.processMessage m none)
  mergeStagedCommit : ∀ commit, C.Same (M.mergeStagedCommit commit none)
  storePendingProposal : ∀ p, C.Same (M.storePendingProposal p none)
  commitToPendingProposals : ∀ signer, C.Same (M.commitToPendingProposals signer none)
  mergePendingCommit : C.Same (M.mergePendingCommit none)
  clearPendingCommit : C.Same (M.clearPendingCommit none)
  delete : C.Same (M.delete none)
  stageWelcome : ∀ config {w}, C.welcomes w →
    Sim C.store C.store (M.stageWelcome config w none) (M.stageWelcome config w none)
  staged : ∀ config {w}, C.welcomes w → ∀ db,
    wp (M.stageWelcome config w none) db (fun staged _ => C.staged staged) fun _ _ => True
  intoGroup : ∀ {staged}, C.staged staged →
    Sim C.store C.store (M.intoGroup staged none) (M.intoGroup staged none)
  joined : ∀ {staged}, C.staged staged → ∀ db,
    wp (M.intoGroup staged none) db (fun g _ => C.groups g) fun _ _ => True
  status : ∀ {b b'}, C.statuses b b' → statusOf id b = statusOf id b'
  inserted : ∀ op {b b'}, C.statuses b b' →
    C.statuses ((id, GroupPendingOperation.toRow op) :: b.filter (·.1 != id))
      ((id, op.toRow) :: b'.filter (·.1 != id))
  deleted : ∀ {b b'}, C.statuses b b' →
    C.statuses (b.filter (·.1 != id)) (b'.filter (·.1 != id))

structure Alike (C : Comparison M) (s t : Session M) : Prop where
  store : C.store s.store t.store
  statuses : C.statuses s.beside t.beside

structure AlikeOn (C : Comparison M) (P : ω → Prop) (s t : Owning ω (Session M)) : Prop where
  self : s.self = t.self
  holds : P s.self
  world : C.Alike s.world t.world

/-- A group in memory that is one of those at hand. -/
def Held (C : Comparison M) (mlsGroup : Option M.Group) : Prop :=
  ∀ g, mlsGroup = some g → C.groups g

variable {C : Comparison M} {P : ω → Prop} {env : Surroundings M} {id : String}

theorem held_some {g : M.Group} (h : C.groups g) : C.Held (some g) := fun _ hg => by
  obtain rfl := Option.some.inj hg
  exact h

/-! ## Transactions and single uses -/

section calm

variable (hM : M.StoresGroups) (hcalm : ∀ t, env.fault t = none) (halone : ∀ t, env.others t = [])
include hcalm halone

/-- **A transaction.** -/
theorem sim_transaction {x : EStateM Error (Owning ω (Session M)) α}
    (hx : Sim (C.AlikeOn P) (C.AlikeOn P) x x) :
    Sim (C.AlikeOn P) (C.AlikeOn P) (Lib.transaction env Error.display x)
      (Lib.transaction env Error.display x) := by
  intro s t hst
  have hawait : C.Alike (s.world.await env) (t.world.await env) := by
    refine ⟨?_, hst.world.statuses⟩
    rw [Session.await_store_of_alone halone, Session.await_store_of_alone halone]
    exact hst.world.store
  have hagree := hx ⟨s.self, (s.world.await env).tick⟩ ⟨t.self, (t.world.await env).tick⟩
    ⟨hst.self, hst.holds, hawait.store, hawait.statuses⟩
  generalize hs : x.run ⟨s.self, (s.world.await env).tick⟩ = r,
    ht : x.run ⟨t.self, (t.world.await env).tick⟩ = r' at hagree
  cases hagree with
  | ok h =>
    rw [run_transaction_ok (hcalm _) hs (hcalm _), run_transaction_ok (hcalm _) ht (hcalm _)]
    exact .ok ⟨h.self, h.holds, h.world.store, h.world.statuses⟩
  | error h =>
    rw [run_transaction_error (hcalm _) hs, run_transaction_error (hcalm _) ht]
    exact .error ⟨h.self, h.holds, hawait.store, h.world.statuses⟩

omit hcalm halone in
theorem sim_onWorld {x : Action M α} (hx : Sim C.Alike C.Alike x x) :
    Sim (C.AlikeOn P) (C.AlikeOn P) (onWorld x) (onWorld x) :=
  hx.onWorld (fun _ _ h => h.world) fun _ _ _ _ h h' => ⟨h.self, h.holds, h'⟩

omit hcalm halone in
theorem sim_withSelf {ε : Type} {x : EStateM ε (Owning ω (Session M)) α} {a : ω} (ha : P a)
    (hx : Sim (C.AlikeOn P) (C.AlikeOn P) x x) :
    Sim C.Alike C.Alike (withSelf a x) (withSelf a x) :=
  hx.withSelf (fun _ _ h => ⟨h.self, h.world⟩) fun _ _ h => ⟨rfl, ha, h⟩

theorem transaction_alike {x : Action M α} (hx : Sim C.Alike C.Alike x x) :
    Sim C.Alike C.Alike (transaction env x) (transaction env x) := by
  have hinner := sim_transaction (P := fun _ : Unit => True) hcalm halone (sim_onWorld hx)
  exact (sim_withSelf (P := fun _ : Unit => True) trivial hinner).map

omit halone in
theorem look_alike {f : Option String → M.Db → α}
    (hf : ∀ {db db'}, C.store db db' → f none db = f none db') :
    Sim C.Alike C.Alike (look env f) (look env f) := by
  intro s t hst
  change Agree _ _ (.ok (f (env.fault s.time) s.store) s.tick)
    (.ok (f (env.fault t.time) t.store) t.tick)
  rw [hcalm, hcalm, hf hst.store]
  exact .ok ⟨hst.store, hst.statuses⟩

omit halone in
theorem call_alike {op : Option String → EStateM String (Owning ω M.Db) α}
    (hop : Sim (C.On P) (C.On P) (op none) (op none)) :
    Sim (C.AlikeOn P) (C.AlikeOn P) (call env op) (call env op) := by
  intro s t hst
  have hagree := hop ⟨s.self, s.world.store⟩ ⟨t.self, t.world.store⟩
    ⟨hst.self, hst.holds, hst.world.store⟩
  change Agree _ _ (call env op s) (call env op t)
  unfold call zoom
  rw [hcalm, hcalm]
  generalize (op none).run ⟨s.self, s.world.store⟩ = r,
    (op none).run ⟨t.self, t.world.store⟩ = r' at hagree
  cases hagree with
  | ok h => exact .ok ⟨h.self, h.holds, h.store, hst.world.statuses⟩
  | error h => exact .error ⟨h.self, h.holds, h.store, hst.world.statuses⟩

omit halone in
theorem use_alike {wrap : String → Error} {method : M.GroupMethod α}
    (hmethod : C.Same (method none)) :
    Sim (C.AlikeOn C.groups) (C.AlikeOn C.groups) (use env wrap method) (use env wrap method) :=
  (call_alike hcalm hmethod).mapError wrap

omit halone in
theorem useStore_alike {wrap : String → Error} {op : Option String → EStateM String M.Db α}
    (hop : Sim C.store C.store (op none) (op none)) :
    Sim C.Alike C.Alike (useStore env wrap op) (useStore env wrap op) := by
  have hworld : Sim (C.On fun _ : Unit => True) (C.On fun _ : Unit => True) (onWorld (op none))
      (onWorld (op none)) :=
    hop.onWorld (fun _ _ h => h.store) fun _ _ _ _ h h' => ⟨h.self, h.holds, h'⟩
  have hcall : Sim (C.AlikeOn fun _ : Unit => True) (C.AlikeOn fun _ => True)
      (call env fun fault => onWorld (op fault)) (call env fun fault => onWorld (op fault)) :=
    call_alike hcalm hworld
  exact (sim_withSelf (P := fun _ : Unit => True) trivial (hcall.mapError wrap)).map

omit halone in
theorem useStatuses_alike {f : GroupStatuses → α × GroupStatuses}
    (hf : ∀ {b b'}, C.statuses b b' → (f b).1 = (f b').1 ∧ C.statuses (f b).2 (f b').2) :
    Sim C.Alike C.Alike (useStatuses env f) (useStatuses env f) := by
  intro s t hst
  have hrun : ∀ s : Session M, (useStatuses env f).run s =
      .ok (f s.beside).1 { s with beside := (f s.beside).2 }.tick := by
    intro s
    change useStatuses env f s = _
    rw [useStatuses, hcalm]
  obtain ⟨hvalue, hstatuses⟩ := hf hst.statuses
  rw [hrun, hrun, hvalue]
  exact .ok ⟨hst.store, hstatuses⟩

/-! ## Loads -/

variable (hC : C.Respected id)
include hC

omit halone in
theorem loadGroup_alike : Sim C.Alike C.Alike (loadGroup env id) (loadGroup env id) := by
  refine (look_alike hcalm hC.load).bind fun r => ?_
  rcases r with text | _ | g
  · exact .throw (fun _ _ h => h) _
  · exact .throw (fun _ _ h => h) _
  · exact .pure g

omit halone in
theorem group_alike (messages : List Bytes) :
    Sim C.Alike C.Alike (group env id messages) (group env id messages) := by
  refine (Sim.ofResult (fun _ _ h => h) _).bind fun epochs => ?_
  refine (look_alike hcalm (hC.loadOptimize epochs)).bind fun r => ?_
  rcases r with (_ | text) | (_ | g)
  · exact loadGroup_alike hcalm hC
  · exact .throw (fun _ _ h => h) _
  · exact loadGroup_alike hcalm hC
  · exact .pure g

omit halone in
theorem groupWithEpochMessageSecrets_alike (epochs : List ℕ) :
    Sim C.Alike C.Alike (groupWithEpochMessageSecrets env id epochs)
      (groupWithEpochMessageSecrets env id epochs) := by
  refine (look_alike hcalm (hC.loadOptimize epochs)).bind fun r => ?_
  rcases r with (_ | text) | (_ | g)
  · exact group_alike hcalm hC []
  · exact .throw (fun _ _ h => h) _
  · exact .throw (fun _ _ h => h) _
  · exact .pure g

theorem load_alike (epochs : List ℕ) :
    Sim C.Alike C.Alike (loadGroupWithEpochMessageSecrets env id epochs)
      (loadGroupWithEpochMessageSecrets env id epochs) := by
  have hload := transaction_alike hcalm halone
    (groupWithEpochMessageSecrets_alike hcalm hC epochs).attempt
  exact (hload.mapError .sqlite).bind fun r => .ofResult (fun _ _ h => h) r

/-! ## Processing -/

/-- The Welcome in a message is one of those at hand. -/
def Welcomed (C : Comparison M) (blob : Bytes) : Prop :=
  ∀ message w, M.deserialize blob = .ok message → M.extractWelcome message = some w → C.welcomes w

omit halone in
theorem processWelcome_alike {blob : Bytes} (hblob : C.Welcomed blob) (config : M.JoinConfig) :
    Sim C.Alike C.Alike (processWelcome env blob config) (processWelcome env blob config) := by
  have hthrow : ∀ s t : Session M, C.Alike s t → C.Alike s t := fun _ _ h => h
  refine Sim.bind_of (P := fun message => M.deserialize blob = .ok message) (.ofResult hthrow _)
    (fun s => wp_ofResult (fun message h => mapError_eq_ok.mp h) fun _ _ => trivial)
    fun message hm => ?_
  refine Sim.bind_of (P := fun w => M.extractWelcome message = some w) (.orThrow hthrow _ _)
    (fun s => wp_orThrow (fun w h => h) fun _ => trivial) fun w hw => ?_
  have hwelcome := hblob message w hm hw
  refine Sim.bind_of (P := C.staged) (useStore_alike hcalm (hC.stageWelcome config hwelcome))
    (fun s => ?_) fun staged hstaged => useStore_alike hcalm (hC.intoGroup hstaged)
  rw [wp_useStore, hcalm]
  exact hC.staged config hwelcome _

omit hcalm halone hC in
theorem getSelf_bind_alike {f : M.Group → GroupAction M α}
    (hf : ∀ g, C.groups g → Sim (C.AlikeOn C.groups) (C.AlikeOn C.groups) (f g) (f g)) :
    Sim (C.AlikeOn C.groups) (C.AlikeOn C.groups) (getSelf >>= f) (getSelf >>= f) := by
  intro s t hst
  change Agree _ _ ((f s.self).run s) ((f t.self).run t)
  have hrun := hf s.self hst.holds s t hst
  rw [hst.self] at hrun ⊢
  exact hrun

omit halone in
theorem groupSigner_alike : Sim (C.AlikeOn C.groups) (C.AlikeOn C.groups)
    (groupSigner (M := M) env) (groupSigner env) := by
  refine getSelf_bind_alike fun g hg => ?_
  refine Sim.bind_of (P := fun leaf => M.ownLeaf g = some leaf) (.orThrow (fun _ _ h => h) _ _)
    (fun s => wp_orThrow (fun leaf h => h) fun _ => trivial) fun leaf hleaf => ?_
  refine (sim_onWorld (look_alike hcalm ?_)).bind fun signer => .orThrow (fun _ _ h => h) _ _
  exact fun hdb => hC.readSignatureKeyPair hg hleaf hdb

omit halone in
theorem commitProposal_alike (signer : M.Signer) (proposal : M.QueuedProposal) :
    Sim (C.AlikeOn C.groups) (C.AlikeOn C.groups) (commitProposal env signer proposal)
      (commitProposal env signer proposal) :=
  (use_alike hcalm (hC.storePendingProposal proposal)).bind fun _ =>
    use_alike hcalm (hC.commitToPendingProposals signer)

omit halone in
theorem processOperationMessage_alike (blob : Bytes) :
    Sim (C.AlikeOn C.groups) (C.AlikeOn C.groups) (processOperationMessage env blob)
      (processOperationMessage env blob) := by
  have hthrow : ∀ s t : Owning M.Group (Session M),
    C.AlikeOn C.groups s t → C.AlikeOn C.groups s t := fun _ _ h => h
  have hproposal : ∀ proposal : M.QueuedProposal, Sim (C.AlikeOn C.groups) (C.AlikeOn C.groups) (do
      let signer ← groupSigner env
      let r ← commitProposal env signer proposal
      let commit ← ofResult ((M.serialize r.1).mapError .mls)
      let groupInfo ← ofResult ((r.2.mapM M.serialize).mapError .mls)
      return { commit := some commit, groupInfo := groupInfo : ProcessOperationMessageResult })
      (do
      let signer ← groupSigner env
      let r ← commitProposal env signer proposal
      let commit ← ofResult ((M.serialize r.1).mapError .mls)
      let groupInfo ← ofResult ((r.2.mapM M.serialize).mapError .mls)
      return { commit := some commit, groupInfo := groupInfo }) := by
    intro proposal
    refine (groupSigner_alike hcalm hC).bind fun signer => ?_
    refine (commitProposal_alike hcalm hC signer proposal).bind fun r => ?_
    exact (Sim.ofResult hthrow _).bind fun commit => (Sim.ofResult hthrow _).bind fun _ => .pure _
  refine (Sim.ofResult hthrow _).bind fun m => ?_
  refine (use_alike hcalm (hC.processMessage m)).bind fun processed => ?_
  cases processed.content with
  | stagedCommitMessage commit =>
    exact (use_alike hcalm (hC.mergeStagedCommit commit)).bind fun _ => .pure _
  | proposalMessage proposal => exact hproposal proposal
  | externalJoinProposalMessage proposal => exact hproposal proposal
  | applicationMessage bytes => exact .throw hthrow _

omit hcalm hC in
theorem sim_autocommit {op : Option String → EStateM String (Owning ω M.Db) α}
    (hop : Sim (C.AlikeOn P) (C.AlikeOn P) (call env op) (call env op)) :
    Sim (C.AlikeOn P) (C.AlikeOn P) (autocommit env op) (autocommit env op) := by
  intro s t hst
  refine hop ⟨s.self, s.world.await env⟩ ⟨t.self, t.world.await env⟩ ⟨hst.self, hst.holds, ?_,
    hst.world.statuses⟩
  rw [Session.await_store_of_alone halone, Session.await_store_of_alone halone]
  exact hst.world.store

theorem processProposalMessage_alike (blob : Bytes) :
    Sim (C.AlikeOn C.groups) (C.AlikeOn C.groups) (processProposalMessage (autocommit env) blob)
      (processProposalMessage (autocommit env) blob) := by
  have hthrow : ∀ s t : Owning M.Group (Session M),
    C.AlikeOn C.groups s t → C.AlikeOn C.groups s t := fun _ _ h => h
  refine (Sim.ofResult hthrow _).bind fun m => ?_
  have haccess := sim_autocommit halone (call_alike hcalm (hC.processMessage m))
  refine (haccess.mapError Error.processMessage).bind fun processed => ?_
  cases processed.content with
  | proposalMessage proposal =>
    exact getSelf_bind_alike fun g _ => (Sim.orThrow hthrow _ _).bind fun _ => .pure _
  | stagedCommitMessage commit => exact .throw hthrow _
  | externalJoinProposalMessage proposal => exact .throw hthrow _
  | applicationMessage bytes => exact .throw hthrow _

/-! ## The two loops -/

variable {p : Inspection M} {l : Progress M} {s t : Session M} {msg : MlsMessage}

variable (msg) in
theorem inspectionStep_alike (hp : C.Held p.mlsGroup) (hst : C.Alike s t) :
    (p.step env msg s).1 = (p.step env msg t).1 ∧ C.Held (p.step env msg s).1.mlsGroup ∧
      C.Alike (p.step env msg s).2 (p.step env msg t).2 := by
  unfold Inspection.step
  generalize hp' : (if p.latestEpoch < msg.epoch ∧ msg.messageType = .commit then
    { p with latestEpoch := msg.epoch } else p) = p'
  have hheld : C.Held p'.mlsGroup := by
    rw [← hp']
    split_ifs <;> exact hp
  dsimp only
  split
  · rename_i g _ hg
    have hagree := processProposalMessage_alike hcalm halone hC msg.blob ⟨g, s⟩ ⟨g, t⟩
      ⟨rfl, hheld g hg, hst⟩
    generalize (processProposalMessage (autocommit env) msg.blob).run ⟨g, s⟩ = r,
      (processProposalMessage (autocommit env) msg.blob).run ⟨g, t⟩ = r' at hagree
    cases hagree with
    | ok h =>
      dsimp only
      rw [h.self]
      refine ⟨rfl, ?_, h.world⟩
      rw [Inspection.noteProposal_mlsGroup, ← h.self]
      exact held_some h.holds
    | error h =>
      dsimp only
      rw [h.self]
      refine ⟨rfl, ?_, h.world⟩
      rw [Inspection.noteCustomProposal_mlsGroup, ← h.self]
      exact held_some h.holds
  · exact ⟨rfl, hheld, hst⟩

theorem prePass_alike (messages : List MlsMessage) (hp : C.Held p.mlsGroup) (hst : C.Alike s t) :
    (prePass env messages p s).1 = (prePass env messages p t).1 ∧
      C.Held (prePass env messages p s).1.mlsGroup ∧
      C.Alike (prePass env messages p s).2 (prePass env messages p t).2 := by
  induction messages generalizing p s t with
  | nil => exact ⟨rfl, hp, hst⟩
  | cons msg messages ih =>
    obtain ⟨hsame, hheld, hsessions⟩ := inspectionStep_alike hcalm halone hC msg hp hst
    rw [prePass, prePass, ← hsame]
    exact ih hheld hsessions

/-- A message of the second loop is followed alike. -/
def Followed (C : Comparison M) (r r' : Progress M × Session M) : Prop :=
  r.1 = r'.1 ∧ C.Held r.1.mlsGroup ∧ C.Alike r.2 r'.2

omit halone in
/-- The group that a Welcome joins is at hand. -/
theorem processWelcome_groups {blob : Bytes} (hblob : C.Welcomed blob) (config : M.JoinConfig)
    (s : Session M) : wp (transaction env (processWelcome env blob config)) s
      (fun g _ => C.groups g) fun _ _ => True := by
  refine wp_transaction (fun _ _ => trivial) fun _ => ?_
  rw [processWelcome, wp_bind]
  refine wp_ofResult (fun message hm => ?_) fun _ _ => trivial
  rw [wp_bind]
  refine wp_orThrow (fun w hw => ?_) fun _ => trivial
  rw [wp_bind, wp_useStore, hcalm]
  have hstaged := hC.staged config (hblob message w (mapError_eq_ok.mp hm) hw)
    (s.await env).tick.store
  refine wp_mono hstaged (fun staged db h => ?_) fun _ _ _ => trivial
  rw [wp_useStore, hcalm]
  exact wp_mono (hC.joined h db) (fun g _ hg => ⟨fun _ _ => trivial, fun _ => hg⟩)
    fun _ _ _ => trivial

theorem welcomeArm_alike (hblob : C.Welcomed msg.blob) (config : M.JoinConfig)
    (hl : C.Held l.mlsGroup) (hst : C.Alike s t) :
    C.Followed (l.welcomeArm env config msg s) (l.welcomeArm env config msg t) := by
  have hagree := transaction_alike hcalm halone (processWelcome_alike hcalm hC hblob config) s t hst
  have hgroups := processWelcome_groups hcalm hC hblob config s
  generalize hs : (transaction env (processWelcome env msg.blob config)).run s = r,
    ht : (transaction env (processWelcome env msg.blob config)).run t = r' at hagree
  cases hagree with
  | ok h =>
    rw [Progress.welcomeArm_of_ok hs, Progress.welcomeArm_of_ok ht]
    exact ⟨rfl, held_some ((wp_of_ok hs).mp hgroups), h⟩
  | error h =>
    rw [Progress.welcomeArm_of_error hs, Progress.welcomeArm_of_error ht]
    exact ⟨rfl, hl, h⟩

variable (msg) in
include hM in
theorem reload_alike (hl : C.Held l.mlsGroup) (hst : C.Alike s t) :
    C.Followed (l.reload env id msg s) (l.reload env id msg t) := by
  by_cases hloaded : l.commitGroupLoaded
  · rw [Progress.reload_of_loaded hloaded, Progress.reload_of_loaded hloaded]
    exact ⟨rfl, hl, hst⟩
  have hagree := load_alike hcalm halone hC [msg.epoch] s t hst
  have hspec := load_spec env hM id [msg.epoch] s
  generalize hs : (loadGroupWithEpochMessageSecrets env id [msg.epoch]).run s = r,
    ht : (loadGroupWithEpochMessageSecrets env id [msg.epoch]).run t = r' at hagree
  cases hagree with
  | ok h =>
    rw [Progress.reload_of_ok hloaded hs, Progress.reload_of_ok hloaded ht]
    exact ⟨rfl, held_some (hC.loaded (hM.groupId ((wp_of_ok hs).mp hspec).1)), h⟩
  | error h =>
    rw [Progress.reload_of_error hloaded hs, Progress.reload_of_error hloaded ht]
    refine ⟨rfl, ?_, h⟩
    rwa [Progress.stopIfFatal_mlsGroup]

variable (msg) in
theorem applyCommit_alike (hl : C.Held l.mlsGroup) (hst : C.Alike s t) :
    C.Followed (l.applyCommit env id msg s) (l.applyCommit env id msg t) := by
  cases hg : l.mlsGroup with
  | none =>
    rw [Progress.applyCommit_of_none hg, Progress.applyCommit_of_none hg]
    exact ⟨rfl, hl, hst⟩
  | some g =>
    have hagree : Agree (C.AlikeOn C.groups) (C.AlikeOn C.groups)
        ((transactionOn env (processOperationMessage env msg.blob)).run ⟨g, s⟩)
        ((transactionOn env (processOperationMessage env msg.blob)).run ⟨g, t⟩) :=
      sim_transaction hcalm halone (processOperationMessage_alike hcalm hC msg.blob) _ _
        ⟨rfl, hl g hg, hst⟩
    generalize hs : (transactionOn env (processOperationMessage env msg.blob)).run ⟨g, s⟩ = r,
      ht : (transactionOn env (processOperationMessage env msg.blob)).run ⟨g, t⟩ = r' at hagree
    cases hagree with
    | ok h =>
      rw [Progress.applyCommit_of_ok hg hs, Progress.applyCommit_of_ok hg ht, h.self]
      exact ⟨rfl, held_some (h.self ▸ h.holds), h.world⟩
    | error h =>
      rw [Progress.applyCommit_of_error hg hs, Progress.applyCommit_of_error hg ht, h.self]
      refine ⟨rfl, ?_, h.world⟩
      rw [Progress.stopIfFatal_mlsGroup]
      exact held_some (h.self ▸ h.holds)

include hM in
theorem commitArm_alike (hl : C.Held l.mlsGroup) (hst : C.Alike s t) :
    C.Followed (l.commitArm env id msg s) (l.commitArm env id msg t) := by
  obtain ⟨hsame, hheld, hsessions⟩ := reload_alike hM hcalm halone hC msg hl hst
  obtain ⟨hsame', hheld', hsessions'⟩ :=
    applyCommit_alike hcalm halone hC msg hheld hsessions
  unfold Progress.commitArm
  dsimp only
  rw [← hsame, ← hsame']
  split_ifs
  · exact ⟨hsame, hheld, hsessions⟩
  · exact ⟨hsame', hheld', hsessions'⟩
  · refine ⟨rfl, ?_, hsessions'⟩
    rwa [Progress.dropRemoved_mlsGroup]
  · refine ⟨rfl, ?_, hst⟩
    rwa [Progress.dropRemoved_mlsGroup]

include hM in
theorem progressStep_alike (hwelcome : msg.messageType = .welcome → C.Welcomed msg.blob)
    (config : M.JoinConfig) (latestEpoch : ℕ) (hl : C.Held l.mlsGroup) (hst : C.Alike s t) :
    C.Followed (l.step env id config latestEpoch msg s)
      (l.step env id config latestEpoch msg t) := by
  unfold Progress.step
  cases htype : msg.messageType with
  | welcome => exact welcomeArm_alike hcalm halone hC (hwelcome htype) config hl hst
  | commit => exact commitArm_alike hM hcalm halone hC hl hst
  | proposal =>
    refine ⟨rfl, ?_, hst⟩
    rwa [Progress.proposalArm_mlsGroup]
  | unknown => exact ⟨rfl, hl, hst⟩

/-- The Welcomes among the messages are those at hand. -/
def AllWelcomed (C : Comparison M) (messages : List MlsMessage) : Prop :=
  ∀ msg ∈ messages, msg.messageType = .welcome → C.Welcomed msg.blob

include hM in
theorem operationLoop_alike {messages : List MlsMessage} (hwelcome : C.AllWelcomed messages)
    (config : M.JoinConfig) (latestEpoch : ℕ) (hl : C.Held l.mlsGroup) (hst : C.Alike s t) :
    C.Followed (operationLoop env id config latestEpoch messages l s)
      (operationLoop env id config latestEpoch messages l t) := by
  induction messages generalizing l s t with
  | nil => exact ⟨rfl, hl, hst⟩
  | cons msg messages ih =>
    obtain ⟨hsame, hheld, hsessions⟩ := progressStep_alike hM hcalm halone hC
      (hwelcome msg List.mem_cons_self) config latestEpoch hl hst
    rw [operationLoop, operationLoop]
    split_ifs
    · exact ⟨rfl, hl, hst⟩
    · dsimp only
      rw [← hsame]
      exact ih (fun x hx => hwelcome x (List.mem_cons_of_mem _ hx)) hheld hsessions

include hM in
theorem processMessages_alike {args : AllMessagesOfGroupArgs} (hid : args.groupId = id)
    (hwelcome : C.AllWelcomed args.messages) (config : M.JoinConfig) {mlsGroup : Option M.Group}
    (hgroup : C.Held mlsGroup) (hst : C.Alike s t) :
    C.Followed (processMessages env config args mlsGroup s)
      (processMessages env config args mlsGroup t) := by
  obtain ⟨hsame, hheld, hsessions⟩ := prePass_alike hcalm halone hC (p := .start mlsGroup)
    args.messages hgroup hst
  unfold processMessages progressAfter
  dsimp only
  rw [← hsame, hid]
  exact operationLoop_alike hM hcalm halone hC hwelcome config _ hheld hsessions

/-! ## Opening -/

include hM in
theorem changeGroup_alike {change : GroupAction M Unit}
    (hchange : Sim (C.AlikeOn C.groups) (C.AlikeOn C.groups) change change) :
    Sim C.Alike C.Alike (changeGroup env id change) (changeGroup env id change) := by
  refine (transaction_alike hcalm halone ?_).mapError Error.storage
  refine Sim.bind_of (P := C.groups) (group_alike hcalm hC []) (fun s => ?_) fun g hg => ?_
  · exact wp_mono (group_spec hM id [] s) (fun g _ h => hC.loaded (hM.groupId h.1))
      fun _ _ _ => trivial
  · exact (sim_withSelf hg hchange).bind fun r => .pure r.2

omit halone in
theorem settled_alike {x : Action M (Option M.Group)} (hx : Sim C.Alike C.Alike x x) :
    Sim C.Alike C.Alike
      (do
        let g ← x
        let _ ← attempt (insertOrUpdateGroupStatus env id .none)
        return g)
      (do
        let g ← x
        let _ ← attempt (insertOrUpdateGroupStatus env id .none)
        return g) := by
  have hwritten : Sim C.Alike C.Alike (insertOrUpdateGroupStatus env id .none)
      (insertOrUpdateGroupStatus env id .none) :=
    useStatuses_alike hcalm fun hb => ⟨rfl, hC.inserted .none hb⟩
  exact hx.bind fun g => hwritten.attempt.bind fun _ => .pure g

include hM in
theorem settlePending_alike {args : AllMessagesOfGroupArgs} (hid : args.groupId = id)
    (existing : M.Group) (ownMemberId : String) (op : GroupPendingOperation) :
    Sim C.Alike C.Alike (settlePending env args existing ownMemberId op)
      (settlePending env args existing ownMemberId op) := by
  have hchange : ∀ {change : GroupAction M Unit},
      Sim (C.AlikeOn C.groups) (C.AlikeOn C.groups) change change →
      Sim C.Alike C.Alike (changeGroup env id change) (changeGroup env id change) :=
    fun h => changeGroup_alike hM hcalm halone hC h
  rw [settlePending_eq]
  subst hid
  cases settling args existing ownMemberId op with
  | keep => exact .pure _
  | merge =>
    exact settled_alike hcalm hC (hchange (use_alike hcalm hC.mergePendingCommit)).map
  | clear =>
    exact settled_alike hcalm hC (hchange (use_alike hcalm hC.clearPendingCommit)).map
  | remove =>
    have hdeleted : Sim C.Alike C.Alike (deleteGroupStatus env args.groupId)
        (deleteGroupStatus env args.groupId) :=
      useStatuses_alike hcalm fun hb => ⟨rfl, hC.deleted hb⟩
    have hremove : Sim C.Alike C.Alike (removeGroup env args.groupId)
        (removeGroup env args.groupId) :=
      (hchange (use_alike hcalm hC.delete)).bind fun _ => hdeleted.attempt.bind fun _ => .pure _
    exact settled_alike hcalm hC hremove.map

include hM in
theorem openGroup_alike {args : AllMessagesOfGroupArgs} (hid : args.groupId = id) :
    Sim C.Alike C.Alike (openGroup env args) (openGroup env args) := by
  subst hid
  refine (load_alike hcalm halone hC _).attempt.bind fun r => ?_
  cases r with
  | error e => exact .pure _
  | ok existing =>
    dsimp only
    cases ownIdFromLeafNode existing with
    | none => exact .pure _
    | some ownMemberId =>
      have hstatus : Sim C.Alike C.Alike (getGroupPendingOperation env args.groupId)
          (getGroupPendingOperation env args.groupId) :=
        useStatuses_alike hcalm fun hb => ⟨hC.status hb, hb⟩
      refine hstatus.bind fun row => ?_
      exact (settlePending_alike hM hcalm halone hC rfl existing ownMemberId _).bind
        fun _ => .pure _

omit hcalm halone hC in
include hM in
variable (env) in
/-- A batch is opened with the group of its id. -/
theorem openGroup_groupId (args : AllMessagesOfGroupArgs) (s : Session M) :
    wp (openGroup env args) s (fun o _ => ∀ opening, o = some opening → ∀ g,
      opening.mlsGroup = some g → M.groupId g = args.groupId) fun _ _ => True := by
  rw [openGroup, wp_bind, wp_attempt]
  refine wp_mono (load_spec env hM args.groupId _ s) (fun existing s₁ h₁ => ?_) fun _ s₁ _ => ?_
  · have hid := hM.groupId h₁.1
    dsimp only
    cases ownIdFromLeafNode existing with
    | none => exact fun opening ho => by cases ho
    | some ownMemberId =>
      dsimp only
      rw [wp_bind]
      refine wp_mono (wp_true _ s₁) (fun _ s₂ _ => ?_) fun _ _ _ => trivial
      have hchange : ∀ {change : GroupAction M Unit}, Faithful change →
          wp (changeGroup env args.groupId change) s₂
            (fun g _ => ∀ g', some g = some g' → M.groupId g' = args.groupId) fun _ _ => True := by
        intro change hfaithful
        refine wp_mono (changeGroup_spec hM args.groupId hfaithful s₂) (fun g _ h g' hg' => ?_)
          fun _ _ h => h
        obtain rfl := Option.some.inj hg'
        exact h.1
      have hsettled : ∀ op, wp (settlePending env args existing ownMemberId op) s₂
          (fun o _ => ∀ g, o = some g → M.groupId g = args.groupId) fun _ _ => True := by
        intro op
        apply wp_settlePending
        · exact fun _ _ _ _ ho => ho
        · exact hchange (.of_writes hM.mergePendingCommit)
        · exact hchange (.of_writes hM.clearPendingCommit)
        · exact wp_mono (wp_true _ _) (fun _ _ _ g hg => (by cases hg)) fun _ _ h => h
        · intro g hg
          obtain rfl := Option.some.inj hg
          exact hid
      rw [wp_bind]
      refine wp_mono (hsettled _) (fun o _ h opening ho => ?_) fun _ _ h => h
      obtain rfl := Option.some.inj ho
      exact h
  · intro opening ho
    obtain rfl := Option.some.inj ho
    exact fun g hg => by cases hg

/-! ## A group of a call -/

include hM in
/-- **A group of a call** is processed alike. -/
theorem processGroup_alike {args : AllMessagesOfGroupArgs} (hid : args.groupId = id)
    (hwelcome : C.AllWelcomed args.messages) (config : M.JoinConfig) :
    Sim C.Alike C.Alike (processGroup env config args) (processGroup env config args) := by
  refine Sim.bind_of (openGroup_alike hM hcalm halone hC hid) (openGroup_groupId env hM args) ?_
  intro o ho
  cases o with
  | none => exact .pure _
  | some opening =>
    intro s t hst
    have hheld : C.Held opening.mlsGroup := fun g hg =>
      hC.loaded ((ho opening rfl g hg).trans hid)
    obtain ⟨hsame, -, hsessions⟩ :=
      processMessages_alike hM hcalm halone hC hid hwelcome config hheld hst
    change Agree _ _ (.ok _ (processMessages env config args opening.mlsGroup s).2)
      (.ok _ (processMessages env config args opening.mlsGroup t).2)
    rw [← hsame]
    exact .ok hsessions

end calm

end Comparison

end KChat.Mls
