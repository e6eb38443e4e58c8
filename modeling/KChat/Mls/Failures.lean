import KChat.Lib.Failures
import KChat.Mls.Core

/-!
# Failures that strike a transaction

* `OpenMls.FailsWhenHit`: a function of OpenMLS that a failure hits fails.
* **`processWelcome_interrupted`**, **`processOperationMessage_interrupted`**: the transactions of
  Welcomes and Commits do what they do undisturbed, unless a failure occurs meanwhile.
* `WelcomeStruck`, `CommitStruck`: a failure occurs while the transaction would run.
-/

namespace KChat.Mls

open Lib OpenMls

variable {α : Type}

/-- A function that fails whenever a failure hits it. -/
def OpenMls.GivesUp {σ : Type} (op : Option String → EStateM String σ α) : Prop :=
  ∀ e s, ∃ text t, (op (some e)).run s = .error text t

/-- **What a failure of the store hits fails**, with an error of its own. A signature key pair that
cannot be read is none. -/
structure OpenMls.FailsWhenHit (M : OpenMls) : Prop where
  readSignatureKeyPair : ∀ e db leaf, M.readSignatureKeyPair (some e) db leaf = none
  processMessage : ∀ m, GivesUp (M.processMessage m)
  mergeStagedCommit : ∀ commit, GivesUp (M.mergeStagedCommit commit)
  storePendingProposal : ∀ proposal, GivesUp (M.storePendingProposal proposal)
  commitToPendingProposals : ∀ signer, GivesUp (M.commitToPendingProposals signer)
  stageWelcome : ∀ config welcome, GivesUp (M.stageWelcome config welcome)
  intoGroup : ∀ staged, GivesUp (M.intoGroup staged)

variable {M : OpenMls} {env : Surroundings M}

/-! ## One use after another -/

theorem use_interrupted {wrap : String → Error} {method : M.GroupMethod α} (h : GivesUp method) :
    Interrupted env Interrupted.time (use env wrap method) (use env.spared wrap method) :=
  (Interrupted.call h).mapError wrap

theorem useStore_interrupted {wrap : String → Error} {op : Option String → EStateM String M.Db α}
    (h : GivesUp op) :
    Interrupted env Session.time (useStore env wrap op) (useStore env.spared wrap op) := by
  refine ((Interrupted.call fun e s => ?_).mapError wrap).unowned
  obtain ⟨text, t, hrun⟩ := h e s.world
  exact ⟨text, _, run_zoom_error hrun⟩

theorem run_look (env : Surroundings M) (f : Option String → M.Db → Option α) (e : Error)
    (s : Owning M.Group (Session M)) :
    (do orThrow (← onWorld (look env f)) e : GroupAction M α).run s =
      match f (env.fault s.world.time) s.world.store with
      | some a => .ok a ⟨s.self, s.world.tick⟩
      | none => .error e ⟨s.self, s.world.tick⟩ := by
  change (orThrow (f (env.fault s.world.time) s.world.store) e : GroupAction M α).run
    ⟨s.self, s.world.tick⟩ = _
  cases f (env.fault s.world.time) s.world.store <;> rfl

theorem time_look (env : Surroundings M) (f : Option String → M.Db → Option α) (e : Error)
    (s : Owning M.Group (Session M)) : Interrupted.time
      (final ((do orThrow (← onWorld (look env f)) e : GroupAction M α).run s)) =
        Interrupted.time s + 1 := by
  rw [run_look]
  cases f (env.fault s.world.time) s.world.store <;> rfl

/-- A look that finds nothing when it is hit. -/
theorem look_interrupted {f : Option String → M.Db → Option α} (h : ∀ e db, f (some e) db = none)
    (e : Error) : Interrupted env Interrupted.time
      (do orThrow (← onWorld (look env f)) e : GroupAction M α)
      (do orThrow (← onWorld (look env.spared f)) e) where
  clock_le s := by
    rw [time_look]
    exact Nat.le_succ _
  spared s hspared := by
    rw [time_look, failsWithin_succ, Option.not_isSome_iff_eq_none] at hspared
    rw [run_look, run_look, hspared]
    rfl
  hit s hfails := by
    rw [time_look] at hfails
    obtain ⟨text, htext⟩ := Option.isSome_iff_exists.mp (failsWithin_succ.mp hfails)
    refine ⟨e, ⟨s.self, s.world.tick⟩, ?_, hfails⟩
    rw [run_look, htext, h]

section core

variable (hM : M.FailsWhenHit)
include hM

theorem groupSigner_interrupted :
    Interrupted env Interrupted.time (groupSigner (M := M) env) (groupSigner env.spared) :=
  (Interrupted.of_still fun _ => rfl).bind fun _ => (Interrupted.orThrow _ _).bind fun leaf =>
    look_interrupted (f := fun fault db => M.readSignatureKeyPair fault db leaf)
      (fun e db => hM.readSignatureKeyPair e db leaf) _

/-- **An operation message is processed as undisturbed, or fails.** -/
theorem processOperationMessage_interrupted (message : Bytes) :
    Interrupted env Interrupted.time (processOperationMessage (M := M) env message)
      (processOperationMessage env.spared message) := by
  have hproposal : ∀ proposal : M.QueuedProposal, Interrupted env Interrupted.time (do
      let signer ← groupSigner env
      let r ← commitProposal env signer proposal
      let commit ← ofResult ((M.serialize r.1).mapError .mls)
      let groupInfo ← ofResult ((r.2.mapM M.serialize).mapError .mls)
      return ({ commit := some commit, groupInfo := groupInfo } : ProcessOperationMessageResult)) (do
      let signer ← groupSigner env.spared
      let r ← commitProposal env.spared signer proposal
      let commit ← ofResult ((M.serialize r.1).mapError .mls)
      let groupInfo ← ofResult ((r.2.mapM M.serialize).mapError .mls)
      return ({ commit := some commit, groupInfo := groupInfo } : ProcessOperationMessageResult)) :=
    fun proposal => (groupSigner_interrupted hM).bind fun signer =>
      ((use_interrupted (hM.storePendingProposal proposal)).bind fun _ =>
        use_interrupted (hM.commitToPendingProposals signer)).bind fun _ =>
          (Interrupted.ofResult _).bind fun _ => (Interrupted.ofResult _).bind fun _ => .pure _
  refine (Interrupted.ofResult _).bind fun message =>
    (use_interrupted (hM.processMessage message)).bind fun processed => ?_
  cases processed.content with
  | stagedCommitMessage commit =>
    exact (use_interrupted (hM.mergeStagedCommit commit)).bind fun _ => .pure _
  | proposalMessage proposal => exact hproposal proposal
  | externalJoinProposalMessage proposal => exact hproposal proposal
  | applicationMessage _ => exact .throw _

/-- **A Welcome is processed as undisturbed, or fails.** -/
theorem processWelcome_interrupted (welcome : Bytes) (config : M.JoinConfig) :
    Interrupted env Session.time (processWelcome env welcome config)
      (processWelcome env.spared welcome config) :=
  (Interrupted.ofResult _).bind fun _ => (Interrupted.orThrow _ _).bind fun welcome =>
    (useStore_interrupted (hM.stageWelcome config welcome)).bind fun staged =>
      useStore_interrupted (hM.intoGroup staged)

/-! ## Transactions -/

omit hM in
theorem transaction_interrupted {x y : Action M α} (h : Interrupted env Session.time x y) :
    Interrupted env Session.time (transaction env x) (transaction env.spared y) :=
  (Interrupted.transaction h.onWorld).unowned

omit hM in
theorem transactionOn_interrupted {x y : GroupAction M α}
    (h : Interrupted env Interrupted.time x y) :
    Interrupted env Interrupted.time (transactionOn env x) (transactionOn env.spared y) :=
  Interrupted.transaction h

omit hM

variable (env) in
/-- **A failure strikes the transaction of a Welcome**: it occurs at a moment which the transaction
takes when nothing fails. -/
def WelcomeStruck (config : M.JoinConfig) (blob : Bytes) (s : Session M) : Prop :=
  env.FailsWithin s.time
    (final ((transaction env.spared (processWelcome env.spared blob config)).run s)).time

variable (env) in
/-- **A failure strikes the transaction of a Commit** that is processed on the group `g`. -/
def CommitStruck (blob : Bytes) (g : M.Group) (s : Session M) : Prop :=
  env.FailsWithin s.time
    (final ((transactionOn env.spared (processOperationMessage env.spared blob)).run ⟨g, s⟩)).world.time

variable {config : M.JoinConfig} {blob : Bytes} {g : M.Group} {s : Session M}

include hM

/-- A Welcome's transaction meets a failure, and fails, iff one strikes it. -/
theorem welcomeStruck_iff : WelcomeStruck env config blob s ↔
    ∃ text t, (transaction env (processWelcome env blob config)).run s = .error text t ∧
      env.FailsWithin s.time t.time :=
  (transaction_interrupted (processWelcome_interrupted hM blob config)).hit_iff.symm

/-- A Welcome is joined through iff it would be undisturbed and no failure strikes. -/
theorem processWelcome_ok_iff {t : Session M} :
    (transaction env (processWelcome env blob config)).run s = .ok g t ↔
      (transaction env.spared (processWelcome env.spared blob config)).run s = .ok g t ∧
        ¬ WelcomeStruck env config blob s := by
  rw [(transaction_interrupted (processWelcome_interrupted hM blob config)).ok_iff]
  refine and_congr_right fun hrun => not_congr ?_
  rw [WelcomeStruck, hrun]
  rfl

/-- A Commit's transaction meets a failure, and fails, iff one strikes it. -/
theorem commitStruck_iff : CommitStruck env blob g s ↔
    ∃ text t, (transactionOn env (processOperationMessage env blob)).run ⟨g, s⟩ = .error text t ∧
      env.FailsWithin s.time t.world.time := by
  have h : Interrupted env Interrupted.time (transactionOn env (processOperationMessage env blob))
      (transactionOn env.spared (processOperationMessage env.spared blob)) :=
    transactionOn_interrupted (processOperationMessage_interrupted hM blob)
  exact (h.hit_iff (s := ⟨g, s⟩)).symm

end core

end KChat.Mls
