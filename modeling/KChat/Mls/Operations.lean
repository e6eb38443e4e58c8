import KChat.Mls.Commits
import KChat.Mls.Deletion

/-!
# The operations of the client on groups

An operation is a transaction of the key store. What it leaves pending is written to the table of
group statuses after the transaction, whether or not that succeeds.

* `onGroup`, `recording`: a transaction on a group, and the status after it.
* `UqMls.createGroup`, `UqMls.addMembers`, …: the operations. `Call`, `Call.run`: all of them.
* `Call.Recorded`: the status is written.
-/

namespace KChat.Mls

open Lib

open Storage (Codec)

variable {M : CommitMls} {α : Type} (env : Surroundings M.toOpenMls)

/-! ## Transactions and statuses -/

/-- A group is loaded and `x` runs on it, in one transaction. -/
def onGroup (groupId : String) (messages : List Bytes) (x : GroupAction M.toOpenMls α) :
    Action M.toOpenMls α :=
  mapError .sqlite (transaction env do
    let g ← group env groupId messages
    return (← withSelf g x).1)

/-- With the signer of the own leaf. -/
def signing (x : M.Signer → GroupAction M.toOpenMls α) : GroupAction M.toOpenMls α := do
  let signer ← groupSigner env
  x signer

/-- `x`, and after it the status. -/
def recording (x : Action M.toOpenMls α) (write : Action M.toOpenMls Unit) :
    Action M.toOpenMls α := do
  let a ← x
  let _ ← attempt write
  return a

/-- The status after `x` is written. -/
def Recorded (x : Action M.toOpenMls α) (write : Action M.toOpenMls Unit)
    (s : Session M.toOpenMls) : Prop :=
  ∀ a s', x.run s = .ok a s' → (outcome (write.run s')).isOk

/-! ## Operations -/

def SqliteProvider.loadGroup (groupId : String) : Action M.toOpenMls M.Group := do
  let r ← mapError .sqlite (transaction env (attempt (group env groupId [])))
  ofResult r

/-- A group is created unless it can be loaded; `config` fails where the ciphersuite of the client
is none. -/
def newGroup (clientId groupId : String) (config : Except Error M.CreateConfig)
    (publicKey : Option Bytes) : Action M.toOpenMls Unit := do
  match ← attempt (SqliteProvider.loadGroup env groupId) with
  | .ok _ => throw .groupIsAlreadyExisted
  | .error _ =>
    let config ← ofResult config
    let _ ← mapError .sqlite (transaction env (createGroup env clientId groupId config publicKey))

def UqMls.createGroup (clientId groupId : String) (config : Except Error M.CreateConfig)
    (publicKey : Option Bytes) : Action M.toOpenMls Unit :=
  recording (newGroup env clientId groupId config publicKey)
    (insertOrUpdateGroupStatus env groupId .createGroup)

/-- The operation that is recorded; none if it cannot be read. -/
def currentPendingOperation (groupId : String) : Action M.toOpenMls GroupPendingOperation := do
  match ← attempt (getGroupPendingOperation env groupId) with
  | .ok row => return .ofRow row
  | .error _ => return .none

/-- An update of the tree is recorded unless something else is. -/
def recordUpdate (groupId : String) : Action M.toOpenMls Unit := do
  let op ← currentPendingOperation env groupId
  if op = .none then insertOrUpdateGroupStatus env groupId .updateTree

def UqMls.addMembers (groupId : String) (keyPackages : List Bytes) :
    Action M.toOpenMls AddMembersResult :=
  recording
    (onGroup env groupId [] (signing env fun signer => KChat.Mls.addMembers env signer keyPackages))
    (recordUpdate env groupId)

/-- Nothing is pending, as far as it can be read. -/
def checkNotPending (groupId : String) : Action M.toOpenMls Unit := do
  match ← attempt (getGroupPendingOperation env groupId) with
  | .ok (some op) =>
    if op ≠ GroupPendingOperation.none.toRow then
      throw (.reAdd ("There is a pending operation: " ++ op))
  | _ => return ()

/-- Members are re-added where nothing is pending. -/
def readdUnlessPending (groupId : String) (memberIds : List String) (keyPackages : List Bytes) :
    Action M.toOpenMls ReAddResult := do
  checkNotPending env groupId
  onGroup env groupId [] (signing env fun signer => readd env signer memberIds keyPackages)

def UqMls.readd (groupId : String) (memberIds : List String) (keyPackages : List Bytes) :
    Action M.toOpenMls ReAddResult :=
  recording (readdUnlessPending env groupId memberIds keyPackages)
    (insertOrUpdateGroupStatus env groupId .updateTree)

def UqMls.removeMembers (groupId : String) (memberIds : List String) :
    Action M.toOpenMls CommitResult :=
  recording
    (onGroup env groupId []
      (signing env fun signer => KChat.Mls.removeMembers env signer memberIds))
    (insertOrUpdateGroupStatus env groupId .updateTree)

def UqMls.updateLeafNode (groupId : String) : Action M.toOpenMls CommitResult :=
  recording (onGroup env groupId [] (signing env (KChat.Mls.updateLeafNode env)))
    (insertOrUpdateGroupStatus env groupId .updateTree)

def UqMls.processWelcome (welcome : Bytes) (config : M.JoinConfig) : Action M.toOpenMls Unit := do
  let _ ← mapError .sqlite (transaction env (KChat.Mls.processWelcome env welcome config))

def UqMls.processOperationMessage (groupId : String) (message : Bytes) :
    Action M.toOpenMls ProcessOperationMessageResult :=
  onGroup env groupId [message] (KChat.Mls.processOperationMessage env message)

def UqMls.processManyOperationMessages (groupId : String) (messages : List Bytes) :
    Action M.toOpenMls ℕ :=
  onGroup env groupId messages (KChat.Mls.processManyOperationMessages env messages)

/-- What is pending is dropped or merged, and nothing is recorded any more. -/
def settlingBy (groupId : String) (change : GroupAction M.toOpenMls Unit) :
    Action M.toOpenMls Unit :=
  recording (onGroup env groupId [] change) (insertOrUpdateGroupStatus env groupId .none)

def UqMls.mergePendingCommit (groupId : String) : Action M.toOpenMls Unit :=
  settlingBy env groupId (KChat.Mls.mergePendingCommit env)

def UqMls.clearPendingCommit (groupId : String) : Action M.toOpenMls Unit :=
  settlingBy env groupId (KChat.Mls.clearPendingCommit env)

def UqMls.clearPendingProposals (groupId : String) : Action M.toOpenMls Unit :=
  settlingBy env groupId (KChat.Mls.clearPendingProposals env)

/-! ## Calls -/

/-- **A call of an operation**, with its arguments and what the client's settings give. -/
inductive Call (M : CommitMls)
  | createGroup (clientId groupId : String) (config : Except Error M.CreateConfig)
    (publicKey : Option Bytes)
  | addMembers (groupId : String) (keyPackages : List Bytes)
  | removeMembers (groupId : String) (memberIds : List String)
  | readd (groupId : String) (memberIds : List String) (keyPackages : List Bytes)
  | updateLeafNode (groupId : String)
  | processOperationMessage (groupId : String) (message : Bytes)
  | processManyOperationMessages (groupId : String) (messages : List Bytes)
  | mergePendingCommit (groupId : String)
  | clearPendingCommit (groupId : String)
  | clearPendingProposals (groupId : String)
  | processWelcome (welcome : Bytes) (config : M.JoinConfig)
  | processAllMessages (config : M.JoinConfig) (groups : List AllMessagesOfGroupArgs)
  | deleteGroup (groupId : String)

variable {C : Codec} (K : KeyStore M.toOpenMls C) (recoverable : String → Bool)

/-- What a call does; its result is dropped. -/
def Call.run : Call M → Action M.toOpenMls Unit
  | .createGroup clientId groupId config publicKey =>
    UqMls.createGroup env clientId groupId config publicKey
  | .addMembers groupId keyPackages => (fun _ => ()) <$> UqMls.addMembers env groupId keyPackages
  | .removeMembers groupId memberIds => (fun _ => ()) <$> UqMls.removeMembers env groupId memberIds
  | .readd groupId memberIds keyPackages =>
    (fun _ => ()) <$> UqMls.readd env groupId memberIds keyPackages
  | .updateLeafNode groupId => (fun _ => ()) <$> UqMls.updateLeafNode env groupId
  | .processOperationMessage groupId message =>
    (fun _ => ()) <$> UqMls.processOperationMessage env groupId message
  | .processManyOperationMessages groupId messages =>
    (fun _ => ()) <$> UqMls.processManyOperationMessages env groupId messages
  | .mergePendingCommit groupId => UqMls.mergePendingCommit env groupId
  | .clearPendingCommit groupId => UqMls.clearPendingCommit env groupId
  | .clearPendingProposals groupId => UqMls.clearPendingProposals env groupId
  | .processWelcome welcome config => UqMls.processWelcome env welcome config
  | .processAllMessages config groups =>
    (fun _ => ()) <$> KChat.Mls.processAllMessages env config groups
  | .deleteGroup groupId => UqMls.deleteGroup K env recoverable groupId

/-- **What a call leaves pending is recorded**: no failure hits the status table then. -/
def Call.Recorded (s : Session M.toOpenMls) : Call M → Prop
  | .createGroup clientId groupId config publicKey =>
    KChat.Mls.Recorded (newGroup env clientId groupId config publicKey)
      (insertOrUpdateGroupStatus env groupId .createGroup) s
  | .addMembers groupId keyPackages =>
    KChat.Mls.Recorded
      (onGroup env groupId []
        (signing env fun signer => KChat.Mls.addMembers env signer keyPackages))
      (recordUpdate env groupId) s
  | .removeMembers groupId memberIds =>
    KChat.Mls.Recorded
      (onGroup env groupId []
        (signing env fun signer => KChat.Mls.removeMembers env signer memberIds))
      (insertOrUpdateGroupStatus env groupId .updateTree) s
  | .readd groupId memberIds keyPackages =>
    KChat.Mls.Recorded (readdUnlessPending env groupId memberIds keyPackages)
      (insertOrUpdateGroupStatus env groupId .updateTree) s
  | .updateLeafNode groupId =>
    KChat.Mls.Recorded (onGroup env groupId [] (signing env (KChat.Mls.updateLeafNode env)))
      (insertOrUpdateGroupStatus env groupId .updateTree) s
  | _ => True

end KChat.Mls
