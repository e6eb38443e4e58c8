import KChat.Storage.GroupTables
import KChat.Storage.KeyTables

/-!
# The two storage providers

* `StorageOp`, `Reply`: the methods of the trait, and what they return.
* `SqliteStorageProvider.perform`: a method with each statement on a connection of the pool.
  `TransactionalStorageProvider.perform`: the method in a transaction.
-/

namespace KChat.Storage

open Lib

/-- The methods of `StorageProvider`. -/
inductive StorageOp (C : Codec)
  | writeMlsJoinConfig (groupId : C.Carrier .groupId)
    (value : C.Carrier (.groupData .joinGroupConfig))
  | writeTree (groupId : C.Carrier .groupId) (value : C.Carrier (.groupData .tree))
  | writeInterimTranscriptHash (groupId : C.Carrier .groupId)
    (value : C.Carrier (.groupData .interimTranscriptHash))
  | writeContext (groupId : C.Carrier .groupId) (value : C.Carrier (.groupData .context))
  | writeConfirmationTag (groupId : C.Carrier .groupId)
    (value : C.Carrier (.groupData .confirmationTag))
  | writeGroupState (groupId : C.Carrier .groupId) (value : C.Carrier (.groupData .groupState))
  | writeMessageSecrets (groupId : C.Carrier .groupId)
    (value : C.Carrier (.groupData .messageSecrets))
  | writeResumptionPskStore (groupId : C.Carrier .groupId)
    (value : C.Carrier (.groupData .resumptionPskStore))
  | writeOwnLeafIndex (groupId : C.Carrier .groupId) (value : C.Carrier (.groupData .ownLeafIndex))
  | writeGroupEpochSecrets (groupId : C.Carrier .groupId)
    (value : C.Carrier (.groupData .groupEpochSecrets))
  | writeApplicationExportTree (groupId : C.Carrier .groupId)
    (value : C.Carrier (.groupData .applicationExportTree))
  | appendOwnLeafNode (groupId : C.Carrier .groupId) (leafNode : C.Carrier .leafNode)
  | queueProposal (groupId : C.Carrier .groupId) (proposalRef : C.Carrier .proposalRef)
    (proposal : C.Carrier .queuedProposal)
  | writeSignatureKeyPair (publicKey : C.Carrier .signaturePublicKey)
    (keyPair : C.Carrier .signatureKeyPair)
  | writeEncryptionKeyPair (publicKey : C.Carrier .encryptionKey) (keyPair : C.Carrier .hpkeKeyPair)
  | writeEncryptionEpochKeyPairs (groupId : C.Carrier .groupId) (epoch : C.Carrier .epochKey)
    (leafIndex : ℕ) (keyPairs : List (C.Carrier .hpkeKeyPair))
  | writeKeyPackage (hashRef : C.Carrier .hashReference) (keyPackage : C.Carrier .keyPackage)
  | writePsk (pskId : C.Carrier .pskId) (psk : C.Carrier .pskBundle)
  | mlsGroupJoinConfig (groupId : C.Carrier .groupId)
  | tree (groupId : C.Carrier .groupId)
  | groupContext (groupId : C.Carrier .groupId)
  | interimTranscriptHash (groupId : C.Carrier .groupId)
  | confirmationTag (groupId : C.Carrier .groupId)
  | groupState (groupId : C.Carrier .groupId)
  | messageSecrets (groupId : C.Carrier .groupId)
  | resumptionPskStore (groupId : C.Carrier .groupId)
  | ownLeafIndex (groupId : C.Carrier .groupId)
  | groupEpochSecrets (groupId : C.Carrier .groupId)
  | applicationExportTree (groupId : C.Carrier .groupId)
  | ownLeafNodes (groupId : C.Carrier .groupId)
  | queuedProposalRefs (groupId : C.Carrier .groupId)
  | queuedProposals (groupId : C.Carrier .groupId)
  | supportsEpochMessageSecrets
  | isGroupEpochMessageSecretsMigrated (groupId : C.Carrier .groupId)
  | groupEpochMessageSecrets (groupId : C.Carrier .groupId) (epoch : ℕ)
  | writeGroupEpochMessageSecrets (groupId : C.Carrier .groupId) (epoch : ℕ)
    (messageSecrets : Bytes)
  | replaceGroupEpochMessageSecrets (groupId : C.Carrier .groupId)
    (messageSecrets : List (ℕ × Bytes))
  | deleteGroupEpochMessageSecrets (groupId : C.Carrier .groupId)
  | pruneGroupEpochMessageSecrets (groupId : C.Carrier .groupId) (keepFromEpoch currentEpoch : ℕ)
  | signatureKeyPair (publicKey : C.Carrier .signaturePublicKey)
  | encryptionKeyPair (publicKey : C.Carrier .encryptionKey)
  | encryptionEpochKeyPairs (groupId : C.Carrier .groupId) (epoch : C.Carrier .epochKey)
    (leafIndex : ℕ)
  | keyPackage (hashRef : C.Carrier .hashReference)
  | psk (pskId : C.Carrier .pskId)
  | removeProposal (groupId : C.Carrier .groupId) (proposalRef : C.Carrier .proposalRef)
  | deleteOwnLeafNodes (groupId : C.Carrier .groupId)
  | deleteGroupConfig (groupId : C.Carrier .groupId)
  | deleteTree (groupId : C.Carrier .groupId)
  | deleteConfirmationTag (groupId : C.Carrier .groupId)
  | deleteGroupState (groupId : C.Carrier .groupId)
  | deleteContext (groupId : C.Carrier .groupId)
  | deleteInterimTranscriptHash (groupId : C.Carrier .groupId)
  | deleteMessageSecrets (groupId : C.Carrier .groupId)
  | deleteAllResumptionPskSecrets (groupId : C.Carrier .groupId)
  | deleteOwnLeafIndex (groupId : C.Carrier .groupId)
  | deleteGroupEpochSecrets (groupId : C.Carrier .groupId)
  | deleteApplicationExportTree (groupId : C.Carrier .groupId)
  | clearProposalQueue (groupId : C.Carrier .groupId)
  | deleteSignatureKeyPair (publicKey : C.Carrier .signaturePublicKey)
  | deleteEncryptionKeyPair (publicKey : C.Carrier .encryptionKey)
  | deleteEncryptionEpochKeyPairs (groupId : C.Carrier .groupId) (epoch : C.Carrier .epochKey)
    (leafIndex : ℕ)
  | deleteKeyPackage (hashRef : C.Carrier .hashReference)
  | deletePsk (pskId : C.Carrier .pskId)

/-- What a method returns. -/
inductive Reply (C : Codec)
  | done
  | found (k : Entity) (value : Option (C.Carrier k))
  | leafNodes (leafNodes : List (C.Carrier .leafNode))
  | proposalRefs (proposalRefs : List (C.Carrier .proposalRef))
  | proposals (proposals : List (C.Carrier .proposalRef × C.Carrier .queuedProposal))
  | keyPairs (keyPairs : List (C.Carrier .hpkeKeyPair))
  | secrets (messageSecrets : Option Bytes)
  | flag (value : Bool)

variable {C : Codec} (env : Surroundings)

/-- The value of a call as a reply. -/
def replying {α : Type} (reply : α → Reply C) (x : Action α) : Action (Reply C) := do
  return reply (← x)

/-- A call that returns nothing. -/
def finish (x : Action Unit) : Action (Reply C) := replying (fun _ => .done) x

/-- **A method of the provider with a pool of connections.** -/
def SqliteStorageProvider.perform : StorageOp C → Action (Reply C)
  | .writeMlsJoinConfig groupId value =>
    finish (StorableGroupData.store env groupId .joinGroupConfig value)
  | .writeTree groupId value => finish (StorableGroupData.store env groupId .tree value)
  | .writeInterimTranscriptHash groupId value =>
    finish (StorableGroupData.store env groupId .interimTranscriptHash value)
  | .writeContext groupId value => finish (StorableGroupData.store env groupId .context value)
  | .writeConfirmationTag groupId value =>
    finish (StorableGroupData.store env groupId .confirmationTag value)
  | .writeGroupState groupId value => finish (StorableGroupData.store env groupId .groupState value)
  | .writeMessageSecrets groupId value =>
    finish (StorableGroupData.store env groupId .messageSecrets value)
  | .writeResumptionPskStore groupId value =>
    finish (StorableGroupData.store env groupId .resumptionPskStore value)
  | .writeOwnLeafIndex groupId value =>
    finish (StorableGroupData.store env groupId .ownLeafIndex value)
  | .writeGroupEpochSecrets groupId value =>
    finish (StorableGroupData.store env groupId .groupEpochSecrets value)
  | .writeApplicationExportTree groupId value =>
    finish (StorableGroupData.store env groupId .applicationExportTree value)
  | .appendOwnLeafNode groupId leafNode => finish (StorableLeafNode.store env groupId leafNode)
  | .queueProposal groupId proposalRef proposal =>
    finish (StorableProposal.store env groupId proposalRef proposal)
  | .writeSignatureKeyPair publicKey keyPair =>
    finish (StorableSignatureKeyPairs.store env publicKey keyPair)
  | .writeEncryptionKeyPair publicKey keyPair =>
    finish (StorableEncryptionKeyPair.store env publicKey keyPair)
  | .writeEncryptionEpochKeyPairs groupId epoch leafIndex keyPairs =>
    finish (StorableEpochKeyPairs.store env groupId epoch leafIndex keyPairs)
  | .writeKeyPackage hashRef keyPackage => finish (StorableKeyPackage.store env hashRef keyPackage)
  | .writePsk pskId psk => finish (StorablePskBundle.store env pskId psk)
  | .mlsGroupJoinConfig groupId =>
    replying (.found _) (StorableGroupData.load env groupId .joinGroupConfig)
  | .tree groupId => replying (.found _) (StorableGroupData.load env groupId .tree)
  | .groupContext groupId => replying (.found _) (StorableGroupData.load env groupId .context)
  | .interimTranscriptHash groupId =>
    replying (.found _) (StorableGroupData.load env groupId .interimTranscriptHash)
  | .confirmationTag groupId =>
    replying (.found _) (StorableGroupData.load env groupId .confirmationTag)
  | .groupState groupId => replying (.found _) (StorableGroupData.load env groupId .groupState)
  | .messageSecrets groupId =>
    replying (.found _) (StorableGroupData.load env groupId .messageSecrets)
  | .resumptionPskStore groupId =>
    replying (.found _) (StorableGroupData.load env groupId .resumptionPskStore)
  | .ownLeafIndex groupId => replying (.found _) (StorableGroupData.load env groupId .ownLeafIndex)
  | .groupEpochSecrets groupId =>
    replying (.found _) (StorableGroupData.load env groupId .groupEpochSecrets)
  | .applicationExportTree groupId =>
    replying (.found _) (StorableGroupData.load env groupId .applicationExportTree)
  | .ownLeafNodes groupId => replying .leafNodes (StorableLeafNode.load env groupId)
  | .queuedProposalRefs groupId => replying .proposalRefs (StorableProposal.loadRefs env groupId)
  | .queuedProposals groupId => replying .proposals (StorableProposal.load env groupId)
  | .supportsEpochMessageSecrets => return .flag true
  | .isGroupEpochMessageSecretsMigrated groupId =>
    replying .flag (StorableGroupEpochMessageSecrets.isMigrationDone env groupId)
  | .groupEpochMessageSecrets groupId epoch =>
    replying .secrets (StorableGroupEpochMessageSecrets.load env groupId epoch)
  | .writeGroupEpochMessageSecrets groupId epoch messageSecrets =>
    finish (StorableGroupEpochMessageSecrets.store env groupId epoch messageSecrets)
  | .replaceGroupEpochMessageSecrets groupId messageSecrets =>
    finish (transaction env
      (StorableGroupEpochMessageSecrets.replaceInTx env groupId messageSecrets))
  | .deleteGroupEpochMessageSecrets groupId =>
    finish (StorableGroupEpochMessageSecrets.delete env groupId)
  | .pruneGroupEpochMessageSecrets groupId keepFromEpoch currentEpoch =>
    finish (StorableGroupEpochMessageSecrets.prune env groupId keepFromEpoch currentEpoch)
  | .signatureKeyPair publicKey =>
    replying (.found _) (StorableSignatureKeyPairs.load env publicKey)
  | .encryptionKeyPair publicKey =>
    replying (.found _) (StorableEncryptionKeyPair.load env publicKey)
  | .encryptionEpochKeyPairs groupId epoch leafIndex =>
    replying .keyPairs (StorableEpochKeyPairs.load env groupId epoch leafIndex)
  | .keyPackage hashRef => replying (.found _) (StorableKeyPackage.load env hashRef)
  | .psk pskId => replying (.found _) (StorablePskBundle.load env pskId)
  | .removeProposal groupId proposalRef =>
    finish (StorableProposal.deleteProposal env groupId proposalRef)
  | .deleteOwnLeafNodes groupId => finish (StorableLeafNode.deleteLeafNodes env groupId)
  | .deleteGroupConfig groupId =>
    finish (StorableGroupData.deleteGroupData env groupId .joinGroupConfig)
  | .deleteTree groupId => finish (StorableGroupData.deleteGroupData env groupId .tree)
  | .deleteConfirmationTag groupId =>
    finish (StorableGroupData.deleteGroupData env groupId .confirmationTag)
  | .deleteGroupState groupId => finish (StorableGroupData.deleteGroupData env groupId .groupState)
  | .deleteContext groupId => finish (StorableGroupData.deleteGroupData env groupId .context)
  | .deleteInterimTranscriptHash groupId =>
    finish (StorableGroupData.deleteGroupData env groupId .interimTranscriptHash)
  | .deleteMessageSecrets groupId =>
    finish (StorableGroupData.deleteGroupData env groupId .messageSecrets)
  | .deleteAllResumptionPskSecrets groupId =>
    finish (StorableGroupData.deleteGroupData env groupId .resumptionPskStore)
  | .deleteOwnLeafIndex groupId =>
    finish (StorableGroupData.deleteGroupData env groupId .ownLeafIndex)
  | .deleteGroupEpochSecrets groupId =>
    finish (StorableGroupData.deleteGroupData env groupId .groupEpochSecrets)
  | .deleteApplicationExportTree groupId =>
    finish (StorableGroupData.deleteGroupData env groupId .applicationExportTree)
  | .clearProposalQueue groupId => finish (StorableProposal.deleteAllProposals env groupId)
  | .deleteSignatureKeyPair publicKey => finish (StorableSignatureKeyPairs.delete env publicKey)
  | .deleteEncryptionKeyPair publicKey => finish (StorableEncryptionKeyPair.delete env publicKey)
  | .deleteEncryptionEpochKeyPairs groupId epoch leafIndex =>
    finish (StorableEpochKeyPairs.deleteEpochKeyPair env groupId epoch leafIndex)
  | .deleteKeyPackage hashRef => finish (StorableKeyPackage.deleteKeyPackage env hashRef)
  | .deletePsk pskId => finish (StorablePskBundle.delete env pskId)

/-- **A method of the provider in a transaction.** -/
def TransactionalStorageProvider.perform : StorageOp C → Action (Reply C)
  | .writeMlsJoinConfig groupId value =>
    finish (StorableGroupData.storeInTx env groupId .joinGroupConfig value)
  | .writeTree groupId value => finish (StorableGroupData.storeInTx env groupId .tree value)
  | .writeInterimTranscriptHash groupId value =>
    finish (StorableGroupData.storeInTx env groupId .interimTranscriptHash value)
  | .writeContext groupId value => finish (StorableGroupData.storeInTx env groupId .context value)
  | .writeConfirmationTag groupId value =>
    finish (StorableGroupData.storeInTx env groupId .confirmationTag value)
  | .writeGroupState groupId value =>
    finish (StorableGroupData.storeInTx env groupId .groupState value)
  | .writeMessageSecrets groupId value =>
    finish (StorableGroupData.storeInTx env groupId .messageSecrets value)
  | .writeResumptionPskStore groupId value =>
    finish (StorableGroupData.storeInTx env groupId .resumptionPskStore value)
  | .writeOwnLeafIndex groupId value =>
    finish (StorableGroupData.storeInTx env groupId .ownLeafIndex value)
  | .writeGroupEpochSecrets groupId value =>
    finish (StorableGroupData.storeInTx env groupId .groupEpochSecrets value)
  | .writeApplicationExportTree groupId value =>
    finish (StorableGroupData.storeInTx env groupId .applicationExportTree value)
  | .appendOwnLeafNode groupId leafNode => finish (StorableLeafNode.storeInTx env groupId leafNode)
  | .queueProposal groupId proposalRef proposal =>
    finish (StorableProposal.storeInTx env groupId proposalRef proposal)
  | .writeSignatureKeyPair publicKey keyPair =>
    finish (StorableSignatureKeyPairs.storeInTx env publicKey keyPair)
  | .writeEncryptionKeyPair publicKey keyPair =>
    finish (StorableEncryptionKeyPair.storeInTx env publicKey keyPair)
  | .writeEncryptionEpochKeyPairs groupId epoch leafIndex keyPairs =>
    finish (StorableEpochKeyPairs.storeInTx env groupId epoch leafIndex keyPairs)
  | .writeKeyPackage hashRef keyPackage =>
    finish (StorableKeyPackage.storeInTx env hashRef keyPackage)
  | .writePsk pskId psk => finish (StorablePskBundle.storeInTx env pskId psk)
  | .mlsGroupJoinConfig groupId =>
    replying (.found _) (StorableGroupData.loadInTx env groupId .joinGroupConfig)
  | .tree groupId => replying (.found _) (StorableGroupData.loadInTx env groupId .tree)
  | .groupContext groupId => replying (.found _) (StorableGroupData.loadInTx env groupId .context)
  | .interimTranscriptHash groupId =>
    replying (.found _) (StorableGroupData.loadInTx env groupId .interimTranscriptHash)
  | .confirmationTag groupId =>
    replying (.found _) (StorableGroupData.loadInTx env groupId .confirmationTag)
  | .groupState groupId => replying (.found _) (StorableGroupData.loadInTx env groupId .groupState)
  | .messageSecrets groupId =>
    replying (.found _) (StorableGroupData.loadInTx env groupId .messageSecrets)
  | .resumptionPskStore groupId =>
    replying (.found _) (StorableGroupData.loadInTx env groupId .resumptionPskStore)
  | .ownLeafIndex groupId =>
    replying (.found _) (StorableGroupData.loadInTx env groupId .ownLeafIndex)
  | .groupEpochSecrets groupId =>
    replying (.found _) (StorableGroupData.loadInTx env groupId .groupEpochSecrets)
  | .applicationExportTree groupId =>
    replying (.found _) (StorableGroupData.loadInTx env groupId .applicationExportTree)
  | .ownLeafNodes groupId => replying .leafNodes (StorableLeafNode.loadInTx env groupId)
  | .queuedProposalRefs groupId =>
    replying .proposalRefs (StorableProposal.loadRefsInTx env groupId)
  | .queuedProposals groupId => replying .proposals (StorableProposal.loadInTx env groupId)
  | .supportsEpochMessageSecrets => return .flag true
  | .isGroupEpochMessageSecretsMigrated groupId =>
    replying .flag (StorableGroupEpochMessageSecrets.isMigrationDoneInTx env groupId)
  | .groupEpochMessageSecrets groupId epoch =>
    replying .secrets (StorableGroupEpochMessageSecrets.loadInTx env groupId epoch)
  | .writeGroupEpochMessageSecrets groupId epoch messageSecrets =>
    finish (StorableGroupEpochMessageSecrets.storeInTx env groupId epoch messageSecrets)
  | .replaceGroupEpochMessageSecrets groupId messageSecrets =>
    finish (StorableGroupEpochMessageSecrets.replaceInTx env groupId messageSecrets)
  | .deleteGroupEpochMessageSecrets groupId =>
    finish (StorableGroupEpochMessageSecrets.deleteInTx env groupId)
  | .pruneGroupEpochMessageSecrets groupId keepFromEpoch currentEpoch =>
    finish (StorableGroupEpochMessageSecrets.pruneInTx env groupId keepFromEpoch currentEpoch)
  | .signatureKeyPair publicKey =>
    replying (.found _) (StorableSignatureKeyPairs.loadInTx env publicKey)
  | .encryptionKeyPair publicKey =>
    replying (.found _) (StorableEncryptionKeyPair.loadInTx env publicKey)
  | .encryptionEpochKeyPairs groupId epoch leafIndex =>
    replying .keyPairs (StorableEpochKeyPairs.loadInTx env groupId epoch leafIndex)
  | .keyPackage hashRef => replying (.found _) (StorableKeyPackage.loadInTx env hashRef)
  | .psk pskId => replying (.found _) (StorablePskBundle.loadInTx env pskId)
  | .removeProposal groupId proposalRef =>
    finish (StorableProposal.deleteProposalInTx env groupId proposalRef)
  | .deleteOwnLeafNodes groupId => finish (StorableLeafNode.deleteLeafNodesInTx env groupId)
  | .deleteGroupConfig groupId =>
    finish (StorableGroupData.deleteGroupDataInTx env groupId .joinGroupConfig)
  | .deleteTree groupId => finish (StorableGroupData.deleteGroupDataInTx env groupId .tree)
  | .deleteConfirmationTag groupId =>
    finish (StorableGroupData.deleteGroupDataInTx env groupId .confirmationTag)
  | .deleteGroupState groupId =>
    finish (StorableGroupData.deleteGroupDataInTx env groupId .groupState)
  | .deleteContext groupId => finish (StorableGroupData.deleteGroupDataInTx env groupId .context)
  | .deleteInterimTranscriptHash groupId =>
    finish (StorableGroupData.deleteGroupDataInTx env groupId .interimTranscriptHash)
  | .deleteMessageSecrets groupId =>
    finish (StorableGroupData.deleteGroupDataInTx env groupId .messageSecrets)
  | .deleteAllResumptionPskSecrets groupId =>
    finish (StorableGroupData.deleteGroupDataInTx env groupId .resumptionPskStore)
  | .deleteOwnLeafIndex groupId =>
    finish (StorableGroupData.deleteGroupDataInTx env groupId .ownLeafIndex)
  | .deleteGroupEpochSecrets groupId =>
    finish (StorableGroupData.deleteGroupDataInTx env groupId .groupEpochSecrets)
  | .deleteApplicationExportTree groupId =>
    finish (StorableGroupData.deleteGroupDataInTx env groupId .applicationExportTree)
  | .clearProposalQueue groupId => finish (StorableProposal.deleteAllProposalsInTx env groupId)
  | .deleteSignatureKeyPair publicKey => finish (StorableSignatureKeyPairs.deleteInTx env publicKey)
  | .deleteEncryptionKeyPair publicKey =>
    finish (StorableEncryptionKeyPair.deleteInTx env publicKey)
  | .deleteEncryptionEpochKeyPairs groupId epoch leafIndex =>
    finish (StorableEpochKeyPairs.deleteEpochKeyPairInTx env groupId epoch leafIndex)
  | .deleteKeyPackage hashRef => finish (StorableKeyPackage.deleteKeyPackageInTx env hashRef)
  | .deletePsk pskId => finish (StorablePskBundle.deleteInTx env pskId)

/-- Method after method. -/
def performAll (perform : StorageOp C → Action (Reply C)) (ops : List (StorageOp C)) :
    Action (List (Reply C)) :=
  ops.mapM perform

end KChat.Storage
