import KChat.Lib.Bytes
import KChat.Lib.Transaction

/-!
# What is used of OpenMLS and of the key store under it

`OpenMls` collects the types and functions of the libraries. A `Group` is what OpenMLS holds of a
group; with `StoresGroups`, apart from the message secrets of its epochs, which are loaded when they
are needed. `stored` is the group the rows of a key store stand for. A function that uses the key
store takes the failure that hits it, if any, and fails with the text its error displays.

* `Reads`, `Writes`: what a method of a group does to the store.
* `OpenMls.StoresGroups`: the store holds the groups that were written.
-/

namespace KChat.Mls

open Lib

inductive LoadOptimizeError
  | missingGroupEpochMessageSecretsMetadata
  | other (text : String)
  deriving DecidableEq, Repr

inductive Proposal
  | add | update | remove | preSharedKey | reInit | externalInit | groupContextExtensions | appAck
  | selfRemove | custom
  deriving DecidableEq, Repr

inductive ProcessedMessageContent (StagedCommit QueuedProposal : Type)
  | applicationMessage (message : Bytes)
  | proposalMessage (proposal : QueuedProposal)
  | externalJoinProposalMessage (proposal : QueuedProposal)
  | stagedCommitMessage (commit : StagedCommit)

structure ProcessedMessage (StagedCommit QueuedProposal : Type) where
  groupId : String
  epoch : ℕ
  content : ProcessedMessageContent StagedCommit QueuedProposal

inductive CustomProposalType
  | reAdd | remove
  deriving DecidableEq, Repr

structure CustomProposal where
  clientJid : Option String
  mlsClientId : Option String
  proposalType : CustomProposalType
  deriving DecidableEq, Repr

/-- **The libraries**: their types, the observers of a group, and the functions that are called. -/
structure OpenMls where
  Db : Type
  Group : Type
  StagedCommit : Type
  QueuedProposal : Type
  Credential : Type
  LeafNode : Type
  MessageIn : Type
  MessageOut : Type
  ProtocolMessage : Type
  Welcome : Type
  StagedWelcome : Type
  JoinConfig : Type
  Signer : Type
  stored : Db → String → Option Group
  groupId : Group → String
  epoch : Group → ℕ
  treeHash : Group → Bytes
  /-- the own leaf, which is gone once the own member was removed -/
  ownLeaf : Group → Option LeafNode
  credential : LeafNode → Credential
  members : Group → List Credential
  member : Group → ℕ → Option Credential
  /-- the identity of a basic credential, where it is UTF-8 -/
  identity : Credential → Option String
  proposal : QueuedProposal → Proposal
  /-- the leaf of a proposal's sender, if it is a member -/
  sender : QueuedProposal → Option ℕ
  deserialize : Bytes → Except String MessageIn
  serialize : MessageOut → Except String Bytes
  intoProtocolMessage : MessageIn → Except String ProtocolMessage
  messageEpoch : ProtocolMessage → ℕ
  extractWelcome : MessageIn → Option Welcome
  loadOptimize : Option String → Db → String → List ℕ → Except LoadOptimizeError (Option Group)
  load : Option String → Db → String → Except String (Option Group)
  readSignatureKeyPair : Option String → Db → LeafNode → Option Signer
  processMessage : ProtocolMessage → Option String →
    EStateM String (Owning Group Db) (ProcessedMessage StagedCommit QueuedProposal)
  mergeStagedCommit : StagedCommit → Option String → EStateM String (Owning Group Db) Unit
  storePendingProposal : QueuedProposal → Option String → EStateM String (Owning Group Db) Unit
  commitToPendingProposals : Signer → Option String →
    EStateM String (Owning Group Db) (MessageOut × Option MessageOut)
  mergePendingCommit : Option String → EStateM String (Owning Group Db) Unit
  clearPendingCommit : Option String → EStateM String (Owning Group Db) Unit
  delete : Option String → EStateM String (Owning Group Db) Unit
  /-- a Welcome is decrypted and checked; the group it joins may replace an old one -/
  stageWelcome : JoinConfig → Welcome → Option String → EStateM String Db StagedWelcome
  intoGroup : StagedWelcome → Option String → EStateM String Db Group
  customProposal : Bytes → Option CustomProposal

namespace OpenMls

variable (M : OpenMls)

abbrev Processed : Type := ProcessedMessage M.StagedCommit M.QueuedProposal

abbrev GroupMethod (α : Type) : Type := Option String → EStateM String (Owning M.Group M.Db) α

variable {M}

/-! ## What a method does -/

/-- A method that changes neither the group in memory nor any stored group. -/
def Reads {α : Type} (x : M.GroupMethod α) : Prop :=
  ∀ fault s, (final ((x fault).run s)).self = s.self ∧
    M.stored (final ((x fault).run s)).world = M.stored s.world

/-- **A method that writes what it changes**: if the group in memory is the stored one, it is again
when the method succeeds. -/
structure Writes {α : Type} (x : M.GroupMethod α) : Prop where
  groupId : ∀ fault s, M.groupId (final ((x fault).run s)).self = M.groupId s.self
  stored : ∀ fault s, M.stored s.world (M.groupId s.self) = some s.self → wp (x fault) s
    (fun _ s' => M.stored s'.world (M.groupId s'.self) = some s'.self) fun _ _ => True

variable (M)

/-- **Groups are stored**: a group that is loaded is the stored one, and whoever changes a group
writes it. -/
structure StoresGroups : Prop where
  groupId : ∀ {db id g}, M.stored db id = some g → M.groupId g = id
  loadOptimize : ∀ {fault db id epochs g},
    M.loadOptimize fault db id epochs = .ok (some g) → M.stored db id = some g
  load : ∀ {fault db id g}, M.load fault db id = .ok (some g) → M.stored db id = some g
  processMessage : ∀ message, Reads (M.processMessage message)
  mergeStagedCommit : ∀ commit, Writes (M.mergeStagedCommit commit)
  storePendingProposal : ∀ proposal, Writes (M.storePendingProposal proposal)
  commitToPendingProposals : ∀ signer, Writes (M.commitToPendingProposals signer)
  mergePendingCommit : Writes M.mergePendingCommit
  clearPendingCommit : Writes M.clearPendingCommit
  stageWelcome : ∀ config welcome fault db,
    M.stored (final ((M.stageWelcome config welcome fault).run db)) = M.stored db
  intoGroup : ∀ welcome fault db, wp (M.intoGroup welcome fault) db
    (fun g db' => M.stored db' (M.groupId g) = some g) fun _ _ => True

end OpenMls

end KChat.Mls
