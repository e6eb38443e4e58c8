import KChat.Storage.Schema

/-!
# Reading and writing the tables of groups

The functions of the storage provider on the tables whose rows belong to a group, each on a
connection of the pool and in a transaction.

* `StorableGroupData`, `StorableLeafNode`, `StorableProposal`, `StorableEpochKeyPairs`,
  `StorableGroupEpochMessageSecrets`, `StorableDecryptedApplicationMessage`,
  `StorableEpochMigrationState`; `deleteGroupById`.
-/

namespace KChat.Storage

open Lib

variable {C : Codec} (env : Surroundings)

/-! ## Group data -/

namespace StorableGroupData

def load (groupId : C.Carrier .groupId) (dataType : GroupDataType) :
    Action (Option (C.Carrier (.groupData dataType))) :=
  pooled env do
    let groupId ← ofResult (C.toVec groupId)
    queryRow (fun db => db.groupData.rows.filter fun row =>
      row.groupId = groupId ∧ row.dataType = dataType ∧
        row.providerVersion = storageProviderVersion) fun row => C.fromSlice row.groupData

def loadInTx (groupId : C.Carrier .groupId) (dataType : GroupDataType) :
    Action (Option (C.Carrier (.groupData dataType))) :=
  inTx env do
    let groupId ← ofResult (C.toVec groupId)
    queryRow (fun db => db.groupData.rows.filter fun row =>
      row.groupId = groupId ∧ row.dataType = dataType ∧
        row.providerVersion = storageProviderVersion) fun row => C.fromSlice row.groupData

def store (groupId : C.Carrier .groupId) (dataType : GroupDataType)
    (value : C.Carrier (.groupData dataType)) : Action Unit :=
  pooled env do
    let groupId ← ofResult (C.toVec groupId)
    let groupData ← ofResult (C.toVec value)
    execute fun db => { db with
      groupData := db.groupData.insertOrReplace
        { groupId, dataType, groupData, providerVersion := storageProviderVersion } }

def storeInTx (groupId : C.Carrier .groupId) (dataType : GroupDataType)
    (value : C.Carrier (.groupData dataType)) : Action Unit :=
  inTx env do
    let groupId ← ofResult (C.toVec groupId)
    let groupData ← ofResult (C.toVec value)
    execute fun db => { db with
      groupData := db.groupData.insertOrReplace
        { groupId, dataType, groupData, providerVersion := storageProviderVersion } }

def deleteGroupData (groupId : C.Carrier .groupId) (dataType : GroupDataType) : Action Unit :=
  pooled env do
    let groupId ← ofResult (C.toVec groupId)
    execute fun db => { db with
      groupData := db.groupData.deleteWhere fun row =>
        row.groupId = groupId ∧ row.dataType = dataType ∧
          row.providerVersion = storageProviderVersion }

def deleteGroupDataInTx (groupId : C.Carrier .groupId) (dataType : GroupDataType) : Action Unit :=
  inTx env do
    let groupId ← ofResult (C.toVec groupId)
    execute fun db => { db with
      groupData := db.groupData.deleteWhere fun row =>
        row.groupId = groupId ∧ row.dataType = dataType ∧
          row.providerVersion = storageProviderVersion }

end StorableGroupData

/-! ## Own leaf nodes -/

namespace StorableLeafNode

def load (groupId : C.Carrier .groupId) : Action (List (C.Carrier .leafNode)) :=
  pooled env do
    let groupId ← ofResult (C.toVec groupId)
    queryMap (fun db => db.ownLeafNodes.filter fun row =>
      row.groupId = groupId ∧ row.providerVersion = storageProviderVersion)
      fun row => C.fromSlice row.leafNode

def loadInTx (groupId : C.Carrier .groupId) : Action (List (C.Carrier .leafNode)) :=
  inTx env do
    let groupId ← ofResult (C.toVec groupId)
    queryMap (fun db => db.ownLeafNodes.filter fun row =>
      row.groupId = groupId ∧ row.providerVersion = storageProviderVersion)
      fun row => C.fromSlice row.leafNode

/-- An `INSERT OR REPLACE` without a row id conflicts with no row. -/
def store (groupId : C.Carrier .groupId) (leafNode : C.Carrier .leafNode) : Action Unit :=
  pooled env do
    let groupId ← ofResult (C.toVec groupId)
    let leafNode ← ofResult (C.toVec leafNode)
    execute fun db => { db with
      ownLeafNodes := db.ownLeafNodes ++
        [{ groupId, leafNode, providerVersion := storageProviderVersion }] }

def storeInTx (groupId : C.Carrier .groupId) (leafNode : C.Carrier .leafNode) : Action Unit :=
  inTx env do
    let groupId ← ofResult (C.toVec groupId)
    let leafNode ← ofResult (C.toVec leafNode)
    execute fun db => { db with
      ownLeafNodes := db.ownLeafNodes ++
        [{ groupId, leafNode, providerVersion := storageProviderVersion }] }

def deleteLeafNodes (groupId : C.Carrier .groupId) : Action Unit :=
  pooled env do
    let groupId ← ofResult (C.toVec groupId)
    execute fun db => { db with
      ownLeafNodes := db.ownLeafNodes.filter fun row =>
        !decide (row.groupId = groupId ∧ row.providerVersion = storageProviderVersion) }

def deleteLeafNodesInTx (groupId : C.Carrier .groupId) : Action Unit :=
  inTx env do
    let groupId ← ofResult (C.toVec groupId)
    execute fun db => { db with
      ownLeafNodes := db.ownLeafNodes.filter fun row =>
        !decide (row.groupId = groupId ∧ row.providerVersion = storageProviderVersion) }

end StorableLeafNode

/-! ## Proposals -/

namespace StorableProposal

def load (groupId : C.Carrier .groupId) :
    Action (List (C.Carrier .proposalRef × C.Carrier .queuedProposal)) :=
  pooled env do
    let groupId ← ofResult (C.toVec groupId)
    queryMap (fun db => db.proposals.rows.filter fun row =>
      row.groupId = groupId ∧ row.providerVersion = storageProviderVersion)
      fun row => do return (← C.fromSlice row.proposalRef, ← C.fromSlice row.proposal)

def loadInTx (groupId : C.Carrier .groupId) :
    Action (List (C.Carrier .proposalRef × C.Carrier .queuedProposal)) :=
  inTx env do
    let groupId ← ofResult (C.toVec groupId)
    queryMap (fun db => db.proposals.rows.filter fun row =>
      row.groupId = groupId ∧ row.providerVersion = storageProviderVersion)
      fun row => do return (← C.fromSlice row.proposalRef, ← C.fromSlice row.proposal)

def loadRefs (groupId : C.Carrier .groupId) : Action (List (C.Carrier .proposalRef)) :=
  pooled env do
    let groupId ← ofResult (C.toVec groupId)
    queryMap (fun db => db.proposals.rows.filter fun row =>
      row.groupId = groupId ∧ row.providerVersion = storageProviderVersion)
      fun row => C.fromSlice row.proposalRef

def loadRefsInTx (groupId : C.Carrier .groupId) : Action (List (C.Carrier .proposalRef)) :=
  inTx env do
    let groupId ← ofResult (C.toVec groupId)
    queryMap (fun db => db.proposals.rows.filter fun row =>
      row.groupId = groupId ∧ row.providerVersion = storageProviderVersion)
      fun row => C.fromSlice row.proposalRef

/-- If the reference matches, the content matches as well. -/
def store (groupId : C.Carrier .groupId) (proposalRef : C.Carrier .proposalRef)
    (proposal : C.Carrier .queuedProposal) : Action Unit :=
  pooled env do
    let groupId ← ofResult (C.toVec groupId)
    let proposalRef ← ofResult (C.toVec proposalRef)
    let proposal ← ofResult (C.toVec proposal)
    execute fun db => { db with
      proposals := db.proposals.insertOrIgnore
        { groupId, proposalRef, proposal, providerVersion := storageProviderVersion } }

def storeInTx (groupId : C.Carrier .groupId) (proposalRef : C.Carrier .proposalRef)
    (proposal : C.Carrier .queuedProposal) : Action Unit :=
  inTx env do
    let groupId ← ofResult (C.toVec groupId)
    let proposalRef ← ofResult (C.toVec proposalRef)
    let proposal ← ofResult (C.toVec proposal)
    execute fun db => { db with
      proposals := db.proposals.insertOrIgnore
        { groupId, proposalRef, proposal, providerVersion := storageProviderVersion } }

def deleteAllProposals (groupId : C.Carrier .groupId) : Action Unit :=
  pooled env do
    let groupId ← ofResult (C.toVec groupId)
    execute fun db => { db with
      proposals := db.proposals.deleteWhere fun row =>
        row.groupId = groupId ∧ row.providerVersion = storageProviderVersion }

def deleteAllProposalsInTx (groupId : C.Carrier .groupId) : Action Unit :=
  inTx env do
    let groupId ← ofResult (C.toVec groupId)
    execute fun db => { db with
      proposals := db.proposals.deleteWhere fun row =>
        row.groupId = groupId ∧ row.providerVersion = storageProviderVersion }

def deleteProposal (groupId : C.Carrier .groupId) (proposalRef : C.Carrier .proposalRef) :
    Action Unit :=
  pooled env do
    let groupId ← ofResult (C.toVec groupId)
    let proposalRef ← ofResult (C.toVec proposalRef)
    execute fun db => { db with
      proposals := db.proposals.deleteWhere fun row =>
        row.groupId = groupId ∧ row.proposalRef = proposalRef ∧
          row.providerVersion = storageProviderVersion }

def deleteProposalInTx (groupId : C.Carrier .groupId) (proposalRef : C.Carrier .proposalRef) :
    Action Unit :=
  inTx env do
    let groupId ← ofResult (C.toVec groupId)
    let proposalRef ← ofResult (C.toVec proposalRef)
    execute fun db => { db with
      proposals := db.proposals.deleteWhere fun row =>
        row.groupId = groupId ∧ row.proposalRef = proposalRef ∧
          row.providerVersion = storageProviderVersion }

end StorableProposal

/-! ## Key pairs of epochs -/

namespace StorableEpochKeyPairs

def load (groupId : C.Carrier .groupId) (epochId : C.Carrier .epochKey) (leafIndex : ℕ) :
    Action (List (C.Carrier .hpkeKeyPair)) := do
  let keyPairs ← pooled env do
    let groupId ← ofResult (C.toVec groupId)
    let epochId ← ofResult (C.toVec epochId)
    queryRow (fun db => db.epochKeysPairs.rows.filter fun row =>
      row.groupId = groupId ∧ row.epochId = epochId ∧ row.leafIndex = leafIndex ∧
        row.providerVersion = storageProviderVersion) fun row => C.fromSliceVec row.keyPairs
  return keyPairs.getD []

def loadInTx (groupId : C.Carrier .groupId) (epochId : C.Carrier .epochKey) (leafIndex : ℕ) :
    Action (List (C.Carrier .hpkeKeyPair)) := do
  let keyPairs ← inTx env do
    let groupId ← ofResult (C.toVec groupId)
    let epochId ← ofResult (C.toVec epochId)
    queryRow (fun db => db.epochKeysPairs.rows.filter fun row =>
      row.groupId = groupId ∧ row.epochId = epochId ∧ row.leafIndex = leafIndex ∧
        row.providerVersion = storageProviderVersion) fun row => C.fromSliceVec row.keyPairs
  return keyPairs.getD []

def store (groupId : C.Carrier .groupId) (epochId : C.Carrier .epochKey) (leafIndex : ℕ)
    (keyPairs : List (C.Carrier .hpkeKeyPair)) : Action Unit :=
  pooled env do
    let groupId ← ofResult (C.toVec groupId)
    let epochId ← ofResult (C.toVec epochId)
    let keyPairs ← ofResult (C.toVecSlice keyPairs)
    execute fun db => { db with
      epochKeysPairs := db.epochKeysPairs.insertOrReplace
        { groupId, epochId, leafIndex, keyPairs, providerVersion := storageProviderVersion } }

def storeInTx (groupId : C.Carrier .groupId) (epochId : C.Carrier .epochKey) (leafIndex : ℕ)
    (keyPairs : List (C.Carrier .hpkeKeyPair)) : Action Unit :=
  inTx env do
    let groupId ← ofResult (C.toVec groupId)
    let epochId ← ofResult (C.toVec epochId)
    let keyPairs ← ofResult (C.toVecSlice keyPairs)
    execute fun db => { db with
      epochKeysPairs := db.epochKeysPairs.insertOrReplace
        { groupId, epochId, leafIndex, keyPairs, providerVersion := storageProviderVersion } }

def deleteEpochKeyPair (groupId : C.Carrier .groupId) (epochId : C.Carrier .epochKey)
    (leafIndex : ℕ) : Action Unit :=
  pooled env do
    let groupId ← ofResult (C.toVec groupId)
    let epochId ← ofResult (C.toVec epochId)
    execute fun db => { db with
      epochKeysPairs := db.epochKeysPairs.deleteWhere fun row =>
        row.groupId = groupId ∧ row.epochId = epochId ∧ row.leafIndex = leafIndex ∧
          row.providerVersion = storageProviderVersion }

def deleteEpochKeyPairInTx (groupId : C.Carrier .groupId) (epochId : C.Carrier .epochKey)
    (leafIndex : ℕ) : Action Unit :=
  inTx env do
    let groupId ← ofResult (C.toVec groupId)
    let epochId ← ofResult (C.toVec epochId)
    execute fun db => { db with
      epochKeysPairs := db.epochKeysPairs.deleteWhere fun row =>
        row.groupId = groupId ∧ row.epochId = epochId ∧ row.leafIndex = leafIndex ∧
          row.providerVersion = storageProviderVersion }

end StorableEpochKeyPairs

/-! ## Message secrets of epochs -/

def defaultMigrationBatchSize : ℕ := 20

namespace StorableGroupEpochMessageSecrets

def load (groupId : C.Carrier .groupId) (epoch : ℕ) : Action (Option Bytes) :=
  pooled env do
    let groupId ← ofResult (C.toVec groupId)
    let epoch ← ofResult (u64ToSql epoch)
    queryRow (fun db => db.groupEpochMessageSecrets.rows.filter fun row =>
      row.providerVersion = storageProviderVersion ∧ row.groupId = groupId ∧ row.epoch = epoch)
      fun row => .ok row.messageSecrets

def loadInTx (groupId : C.Carrier .groupId) (epoch : ℕ) : Action (Option Bytes) :=
  inTx env do
    let groupId ← ofResult (C.toVec groupId)
    let epoch ← ofResult (u64ToSql epoch)
    queryRow (fun db => db.groupEpochMessageSecrets.rows.filter fun row =>
      row.providerVersion = storageProviderVersion ∧ row.groupId = groupId ∧ row.epoch = epoch)
      fun row => .ok row.messageSecrets

def store (groupId : C.Carrier .groupId) (epoch : ℕ) (messageSecrets : Bytes) : Action Unit :=
  pooled env do
    let groupId ← ofResult (C.toVec groupId)
    let epoch ← ofResult (u64ToSql epoch)
    execute fun db => { db with
      groupEpochMessageSecrets := db.groupEpochMessageSecrets.upsert (fun _ => true)
        { providerVersion := storageProviderVersion, groupId, epoch, messageSecrets } }

def storeInTx (groupId : C.Carrier .groupId) (epoch : ℕ) (messageSecrets : Bytes) : Action Unit :=
  inTx env do
    let groupId ← ofResult (C.toVec groupId)
    let epoch ← ofResult (u64ToSql epoch)
    execute fun db => { db with
      groupEpochMessageSecrets := db.groupEpochMessageSecrets.upsert (fun _ => true)
        { providerVersion := storageProviderVersion, groupId, epoch, messageSecrets } }

def delete (groupId : C.Carrier .groupId) : Action Unit :=
  pooled env do
    let groupId ← ofResult (C.toVec groupId)
    execute fun db => { db with
      groupEpochMessageSecrets := db.groupEpochMessageSecrets.deleteWhere fun row =>
        row.providerVersion = storageProviderVersion ∧ row.groupId = groupId }

def deleteInTx (groupId : C.Carrier .groupId) : Action Unit :=
  inTx env do
    let groupId ← ofResult (C.toVec groupId)
    execute fun db => { db with
      groupEpochMessageSecrets := db.groupEpochMessageSecrets.deleteWhere fun row =>
        row.providerVersion = storageProviderVersion ∧ row.groupId = groupId }

/-- One after the other is stored. -/
def storeAllInTx (groupId : C.Carrier .groupId) : List (ℕ × Bytes) → Action Unit
  | [] => return ()
  | (epoch, bytes) :: messageSecrets => do
    storeInTx env groupId epoch bytes
    storeAllInTx groupId messageSecrets

def replaceInTx (groupId : C.Carrier .groupId) (messageSecrets : List (ℕ × Bytes)) :
    Action Unit := do
  deleteInTx env groupId
  storeAllInTx env groupId messageSecrets

def prune (groupId : C.Carrier .groupId) (keepFromEpoch currentEpoch : ℕ) : Action Unit :=
  pooled env do
    let groupId ← ofResult (C.toVec groupId)
    let keepFromEpoch ← ofResult (u64ToSql keepFromEpoch)
    let currentEpoch ← ofResult (u64ToSql currentEpoch)
    execute fun db => { db with
      groupEpochMessageSecrets := db.groupEpochMessageSecrets.deleteWhere fun row =>
        row.providerVersion = storageProviderVersion ∧ row.groupId = groupId ∧
          (row.epoch < keepFromEpoch ∨ currentEpoch < row.epoch) }

def pruneInTx (groupId : C.Carrier .groupId) (keepFromEpoch currentEpoch : ℕ) : Action Unit :=
  inTx env do
    let groupId ← ofResult (C.toVec groupId)
    let keepFromEpoch ← ofResult (u64ToSql keepFromEpoch)
    let currentEpoch ← ofResult (u64ToSql currentEpoch)
    execute fun db => { db with
      groupEpochMessageSecrets := db.groupEpochMessageSecrets.deleteWhere fun row =>
        row.providerVersion = storageProviderVersion ∧ row.groupId = groupId ∧
          (row.epoch < keepFromEpoch ∨ currentEpoch < row.epoch) }

/-- The newest rows first. -/
def listGroupIdsWithMessageSecrets (limit : ℕ) : Action (List (C.Carrier .groupId)) :=
  pooled env (queryMap (fun db => (db.groupData.rows.filter fun row =>
    row.providerVersion = storageProviderVersion ∧
      row.dataType = .messageSecrets).reverse.take limit) fun row => C.fromSlice row.groupId)

def hasLegacyMessageSecrets : Action Bool :=
  pooled env do
    return (← get).groupData.rows.any fun row =>
      row.providerVersion = storageProviderVersion ∧ row.dataType = .messageSecrets

def hasLegacyMessageSecretsForGroup (groupId : C.Carrier .groupId) : Action Bool :=
  pooled env do
    let groupId ← ofResult (C.toVec groupId)
    return (← get).groupData.rows.any fun row =>
      row.providerVersion = storageProviderVersion ∧ row.groupId = groupId ∧
        row.dataType = .messageSecrets

def hasLegacyMessageSecretsForGroupInTx (groupId : C.Carrier .groupId) : Action Bool :=
  inTx env do
    let groupId ← ofResult (C.toVec groupId)
    return (← get).groupData.rows.any fun row =>
      row.providerVersion = storageProviderVersion ∧ row.groupId = groupId ∧
        row.dataType = .messageSecrets

def isMigrationDone (groupId : C.Carrier .groupId) : Action Bool := do
  return !(← hasLegacyMessageSecretsForGroup env groupId)

def isMigrationDoneInTx (groupId : C.Carrier .groupId) : Action Bool := do
  return !(← hasLegacyMessageSecretsForGroupInTx env groupId)

end StorableGroupEpochMessageSecrets

namespace StorableEpochMigrationState

def isLegacyMessageSecretsMigrationDone : Action Bool := do
  let done ← pooled env (queryRow (fun db => db.epochMigrationState.rows.filter fun row =>
    row.providerVersion = storageProviderVersion)
    fun row => .ok row.legacyMessageSecretsMigrationDone)
  return done.getD 0 ≠ 0

def markLegacyMessageSecretsMigrationDone (done : Bool) : Action Unit :=
  pooled env (execute fun db => { db with
    epochMigrationState := db.epochMigrationState.upsert (fun _ => true)
      { providerVersion := storageProviderVersion
        legacyMessageSecretsMigrationDone := done.toInt } })

end StorableEpochMigrationState

/-! ## Decrypted messages -/

namespace StorableDecryptedApplicationMessage

def loadInTx (groupId : C.Carrier .groupId) (messageId : String) (now : ℤ) :
    Action (Option DecryptedMessageRow) :=
  inTx env do
    let groupId ← ofResult (C.toVec groupId)
    queryRow (fun db => db.decryptedApplicationMessages.rows.filter fun row =>
      row.providerVersion = storageProviderVersion ∧ row.groupId = groupId ∧
        row.messageId = messageId ∧ now < row.expiresAt) .ok

def insertInTx (groupId : C.Carrier .groupId) (messageId : String)
    (ciphertextDigest plaintext : Bytes) (createdAt expiresAt : ℤ) : Action Unit :=
  inTx env do
    let groupId ← ofResult (C.toVec groupId)
    execute fun db => { db with
      decryptedApplicationMessages := db.decryptedApplicationMessages.upsert
        (fun old => old.expiresAt ≤ createdAt)
        { providerVersion := storageProviderVersion, groupId, messageId, ciphertextDigest,
          plaintext, createdAt, expiresAt } }

def prune (now : ℤ) : Action Unit :=
  pooled env (execute fun db => { db with
    decryptedApplicationMessages := db.decryptedApplicationMessages.deleteWhere fun row =>
      row.providerVersion = storageProviderVersion ∧ row.expiresAt ≤ now })

end StorableDecryptedApplicationMessage

/-! ## Deleting a group -/

/-- One statement for each of the tables, in order. -/
def deleteGroupById (groupId : C.Carrier .groupId) : Action Unit := do
  inTx env do
    let groupId ← ofResult (C.toVec groupId)
    execute fun db => { db with
      groupData := db.groupData.deleteWhere fun row =>
        row.providerVersion = storageProviderVersion ∧ row.groupId = groupId }
  inTx env do
    let groupId ← ofResult (C.toVec groupId)
    execute fun db => { db with
      epochKeysPairs := db.epochKeysPairs.deleteWhere fun row =>
        row.providerVersion = storageProviderVersion ∧ row.groupId = groupId }
  inTx env do
    let groupId ← ofResult (C.toVec groupId)
    execute fun db => { db with
      ownLeafNodes := db.ownLeafNodes.filter fun row =>
        !decide (row.providerVersion = storageProviderVersion ∧ row.groupId = groupId) }
  inTx env do
    let groupId ← ofResult (C.toVec groupId)
    execute fun db => { db with
      proposals := db.proposals.deleteWhere fun row =>
        row.providerVersion = storageProviderVersion ∧ row.groupId = groupId }
  inTx env do
    let groupId ← ofResult (C.toVec groupId)
    execute fun db => { db with
      groupEpochMessageSecrets := db.groupEpochMessageSecrets.deleteWhere fun row =>
        row.providerVersion = storageProviderVersion ∧ row.groupId = groupId }
  inTx env do
    let groupId ← ofResult (C.toVec groupId)
    execute fun db => { db with
      decryptedApplicationMessages := db.decryptedApplicationMessages.deleteWhere fun row =>
        row.providerVersion = storageProviderVersion ∧ row.groupId = groupId }

end KChat.Storage
