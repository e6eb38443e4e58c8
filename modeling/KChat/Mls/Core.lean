import KChat.Mls.Provider
import Mathlib.Data.List.Dedup
import Mathlib.Data.List.Sort

/-!
# The core: loading groups and processing messages

* `group`, `groupWithEpochMessageSecrets`, `loadGroupWithEpochMessageSecrets`: loading a group.
* `processWelcome`, `processOperationMessage`, `processManyOperationMessages`,
  `processProposalMessage`, `processApplicationMessage`.
-/

namespace KChat.Mls

open Lib

variable {M : OpenMls} {α : Type} (env : Surroundings M)

/-! ## Loading -/

def protocolMessage (message : Bytes) : Except Error M.ProtocolMessage := do
  let message ← (M.deserialize message).mapError .mls
  (M.intoProtocolMessage message).mapError .protocolMessage

/-- The epochs of protocol messages, in order and without repetition. -/
def protocolMessageEpochs (messages : List Bytes) : Except Error (List ℕ) := do
  let messages ← messages.mapM (protocolMessage (M := M))
  return ((messages.map M.messageEpoch).dedup).insertionSort (· ≤ ·)

/-- A load, which reports what it found. -/
def look (f : Option String → M.Db → α) : Action M α := fun s =>
  .ok (f (env.fault s.time) s.store) s.tick

theorem wp_look {f : Option String → M.Db → α} {s : Session M} {Q : α → Session M → Prop}
    {E : Error → Session M → Prop} :
    wp (look env f) s Q E ↔ Q (f (env.fault s.time) s.store) s.tick := Iff.rfl

def loadGroup (groupId : String) : Action M M.Group := do
  match ← look env fun fault db => M.load fault db groupId with
  | .ok (some g) => return g
  | .ok none => throw .groupIsNotExisted
  | .error text => throw (.storage text)

def group (groupId : String) (messages : List Bytes) : Action M M.Group := do
  let epochs ← ofResult (protocolMessageEpochs (M := M) messages)
  match ← look env fun fault db => M.loadOptimize fault db groupId epochs with
  | .ok (some g) => return g
  | .ok none => loadGroup env groupId
  | .error .missingGroupEpochMessageSecretsMetadata => loadGroup env groupId
  | .error (.other text) => throw (.storage text)

def groupWithEpochMessageSecrets (groupId : String) (epochs : List ℕ) : Action M M.Group := do
  match ← look env fun fault db => M.loadOptimize fault db groupId epochs with
  | .ok (some g) => return g
  | .ok none => throw .groupIsNotExisted
  | .error .missingGroupEpochMessageSecretsMetadata => group env groupId []
  | .error (.other text) => throw (.storage text)

/-- A load in a transaction of its own: the closure itself does not fail. -/
def loadGroupWithEpochMessageSecrets (groupId : String) (epochs : List ℕ) : Action M M.Group := do
  let r ← mapError .sqlite (transaction env (attempt (groupWithEpochMessageSecrets env groupId epochs)))
  ofResult r

/-! ## Processing -/

def processWelcome (welcome : Bytes) (config : M.JoinConfig) : Action M M.Group := do
  let message ← ofResult ((M.deserialize welcome).mapError .mls)
  let welcome ← orThrow (M.extractWelcome message) .invalidWelcomeMessage
  let staged ← useStore env .welcome (M.stageWelcome config welcome)
  useStore env .welcome (M.intoGroup staged)

def groupSigner : GroupAction M M.Signer := do
  let g ← getSelf
  let leaf ← orThrow (M.ownLeaf g) .missingOwnLeafNodeInGroup
  let signer ← onWorld (look env fun fault db => M.readSignatureKeyPair fault db leaf)
  orThrow signer .missingSignatureKeyPair

structure ProcessOperationMessageResult where
  commit : Option Bytes
  groupInfo : Option Bytes

/-- A proposal is stored and committed to. -/
def commitProposal (signer : M.Signer) (proposal : M.QueuedProposal) :
    GroupAction M (M.MessageOut × Option M.MessageOut) := do
  use env .storage (M.storePendingProposal proposal)
  use env .removeMembers (M.commitToPendingProposals signer)

/-- **One operation message**: a commit is merged, a proposal is stored and committed to. -/
def processOperationMessage (message : Bytes) : GroupAction M ProcessOperationMessageResult := do
  let message ← ofResult (protocolMessage message)
  let processed ← use env .processMessage (M.processMessage message)
  match processed.content with
  | .stagedCommitMessage commit =>
    use env .mergeCommit (M.mergeStagedCommit commit)
    return { commit := none, groupInfo := none }
  | .proposalMessage proposal | .externalJoinProposalMessage proposal =>
    let signer ← groupSigner env
    let r ← commitProposal env signer proposal
    let commit ← ofResult ((M.serialize r.1).mapError .mls)
    let groupInfo ← ofResult ((r.2.mapM M.serialize).mapError .mls)
    return { commit := some commit, groupInfo := groupInfo }
  | .applicationMessage _ => throw .invalidOperationMessage

/-- The loop of `process_many_operation_messages`; `signer` is kept once it was read. -/
def processManyLoop : List Bytes → Option M.Signer → GroupAction M Unit
  | [], _ => pure ()
  | message :: messages, signer => do
    let message ← ofResult (protocolMessage message)
    let processed ← use env .processMessage (M.processMessage message)
    match processed.content with
    | .stagedCommitMessage commit =>
      use env .mergeCommit (M.mergeStagedCommit commit)
      processManyLoop messages signer
    | .proposalMessage proposal | .externalJoinProposalMessage proposal =>
      let signer ← match signer with
        | some signer => pure signer
        | none => groupSigner env
      let _ ← commitProposal env signer proposal
      processManyLoop messages (some signer)
    | .applicationMessage _ => processManyLoop messages signer

/-- The epoch after a list of operation messages. -/
def processManyOperationMessages (messages : List Bytes) : GroupAction M ℕ := do
  processManyLoop env messages none
  return M.epoch (← getSelf)

structure QueuedProposal where
  groupId : String
  proposal : Proposal
  sender : String
  epoch : ℕ
  deriving DecidableEq, Repr

/-- A proposal is decrypted; `access` is how the provider at hand uses the store. -/
def processProposalMessage
    (access : M.GroupMethod M.Processed → EStateM String (Owning M.Group (Session M)) M.Processed)
    (message : Bytes) : GroupAction M QueuedProposal := do
  let message ← ofResult (protocolMessage message)
  let processed ← mapError .processMessage (access (M.processMessage message))
  match processed.content with
  | .proposalMessage proposal =>
    let g ← getSelf
    let sender := do M.identity (← M.member g (← M.sender proposal))
    let sender ← orThrow sender .invalidProposalMessage
    return { groupId := processed.groupId
             proposal := M.proposal proposal
             sender := sender
             epoch := processed.epoch }
  | _ => throw .invalidProposalMessage

/-- An application message is decrypted. -/
def processApplicationMessage (message : Bytes) : GroupAction M Bytes := do
  let message ← ofResult (protocolMessage message)
  let processed ← use env .processMessage (M.processMessage message)
  match processed.content with
  | .applicationMessage message => return message
  | _ => throw .invalidApplicationMessage

def processApplicationMessageForGroup (groupId : String) (message : Bytes) : Action M Bytes := do
  let g ← group env groupId [message]
  return (← withSelf g (processApplicationMessage env message)).1

/-! ## Pending commits -/

def mergePendingCommit : GroupAction M Unit :=
  use env .mergePendingCommit M.mergePendingCommit

def clearPendingCommit : GroupAction M Unit :=
  use env .storage M.clearPendingCommit

def deleteGroup : GroupAction M Unit :=
  use env .storage M.delete

end KChat.Mls
