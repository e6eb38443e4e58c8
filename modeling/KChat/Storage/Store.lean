import KChat.Storage.Provider

/-!
# What the storage provider is for

The store that OpenMLS has in mind: maps from keys to values, and a list of own leaf nodes for each
group. It knows nothing of tables, rows and bytes.

* `Store`; `Store.put`, `Store.erase`: a map at one key.
* `Store.apply`: what a method writes. `Store.Answers`: what a method returns.
* `Store.Explains`: the replies of a sequence of methods.
-/

namespace KChat.Storage

open Lib Classical

/-- **The store.** -/
structure Store (C : Codec) where
  groupData : (k : C.Carrier .groupId × GroupDataType) → Option (C.Carrier (.groupData k.2))
  /-- in the order in which they were appended -/
  ownLeafNodes : C.Carrier .groupId → List (C.Carrier .leafNode)
  proposals : C.Carrier .groupId × C.Carrier .proposalRef → Option (C.Carrier .queuedProposal)
  epochKeyPairs : C.Carrier .groupId × C.Carrier .epochKey × ℕ →
    Option (List (C.Carrier .hpkeKeyPair))
  messageSecrets : C.Carrier .groupId × ℕ → Option Bytes
  signatureKeys : C.Carrier .signaturePublicKey → Option (C.Carrier .signatureKeyPair)
  encryptionKeys : C.Carrier .encryptionKey → Option (C.Carrier .hpkeKeyPair)
  keyPackages : C.Carrier .hashReference → Option (C.Carrier .keyPackage)
  psks : C.Carrier .pskId → Option (C.Carrier .pskBundle)

namespace Store

variable {C : Codec}

/-- Nothing is stored. -/
def empty : Store C where
  groupData _ := none
  ownLeafNodes _ := []
  proposals _ := none
  epochKeyPairs _ := none
  messageSecrets _ := none
  signatureKeys _ := none
  encryptionKeys _ := none
  keyPackages _ := none
  psks _ := none

section map

variable {K : Type} {V : K → Type}

/-- The last write wins. -/
noncomputable def put (m : (k : K) → Option (V k)) (k : K) (v : V k) : (k : K) → Option (V k) :=
  Function.update m k (some v)

/-- Some keys are gone. -/
noncomputable def erase (m : (k : K) → Option (V k)) (p : K → Prop) : (k : K) → Option (V k) :=
  fun k => if p k then none else m k

theorem put_of_ne {m : (k : K) → Option (V k)} {k k' : K} (h : k' ≠ k) (v : V k) :
    put m k v k' = m k' :=
  Function.update_of_ne h _ _

theorem of_erase {m : (k : K) → Option (V k)} {p : K → Prop} {k : K} {v : V k}
    (h : erase m p k = some v) : m k = some v := by
  unfold erase at h
  split_ifs at h
  exact h

end map

/-- Some data of a group are written. -/
noncomputable def write (store : Store C) (groupId : C.Carrier .groupId) (dataType : GroupDataType)
    (value : C.Carrier (.groupData dataType)) : Store C :=
  { store with groupData := put store.groupData (groupId, dataType) value }

/-- Some data of a group are deleted. -/
noncomputable def delete (store : Store C) (groupId : C.Carrier .groupId)
    (dataType : GroupDataType) : Store C :=
  { store with groupData := erase store.groupData (· = (groupId, dataType)) }

/-- The message secrets of some epochs of a group are written, one after the other. -/
noncomputable def putSecrets (groupId : C.Carrier .groupId) (secrets : List (ℕ × Bytes))
    (m : C.Carrier .groupId × ℕ → Option Bytes) : C.Carrier .groupId × ℕ → Option Bytes :=
  secrets.foldl (fun m entry => put m (groupId, entry.1) entry.2) m

/-- The last entry of an epoch wins, over what was there. -/
theorem putSecrets_eq (groupId : C.Carrier .groupId) (secrets : List (ℕ × Bytes))
    (m : C.Carrier .groupId × ℕ → Option Bytes) :
    putSecrets groupId secrets m = fun k =>
      (lastEntry (secrets.map fun entry => ((groupId, entry.1), entry.2)) k).or (m k) := by
  rw [← foldl_update, List.foldl_map, putSecrets]
  congr 1
  funext m entry
  rw [put]
  -- the keys are compared classically on one side, as pairs on the other
  congr 1
  exact Subsingleton.elim _ _

/-- **What a method writes.** -/
noncomputable def apply (store : Store C) : StorageOp C → Store C
  | .writeMlsJoinConfig groupId value => store.write groupId .joinGroupConfig value
  | .writeTree groupId value => store.write groupId .tree value
  | .writeInterimTranscriptHash groupId value => store.write groupId .interimTranscriptHash value
  | .writeContext groupId value => store.write groupId .context value
  | .writeConfirmationTag groupId value => store.write groupId .confirmationTag value
  | .writeGroupState groupId value => store.write groupId .groupState value
  | .writeMessageSecrets groupId value => store.write groupId .messageSecrets value
  | .writeResumptionPskStore groupId value => store.write groupId .resumptionPskStore value
  | .writeOwnLeafIndex groupId value => store.write groupId .ownLeafIndex value
  | .writeGroupEpochSecrets groupId value => store.write groupId .groupEpochSecrets value
  | .writeApplicationExportTree groupId value => store.write groupId .applicationExportTree value
  | .appendOwnLeafNode groupId leafNode =>
    { store with
      ownLeafNodes := Function.update store.ownLeafNodes groupId
        (store.ownLeafNodes groupId ++ [leafNode]) }
  | .queueProposal groupId proposalRef proposal =>
    { store with
      proposals := put store.proposals (groupId, proposalRef)
        ((store.proposals (groupId, proposalRef)).getD proposal) }
  | .writeSignatureKeyPair publicKey keyPair =>
    { store with signatureKeys := put store.signatureKeys publicKey keyPair }
  | .writeEncryptionKeyPair publicKey keyPair =>
    { store with encryptionKeys := put store.encryptionKeys publicKey keyPair }
  | .writeEncryptionEpochKeyPairs groupId epoch leafIndex keyPairs =>
    { store with epochKeyPairs := put store.epochKeyPairs (groupId, epoch, leafIndex) keyPairs }
  | .writeKeyPackage hashRef keyPackage =>
    { store with keyPackages := put store.keyPackages hashRef keyPackage }
  | .writePsk pskId psk => { store with psks := put store.psks pskId psk }
  | .writeGroupEpochMessageSecrets groupId epoch messageSecrets =>
    { store with messageSecrets := put store.messageSecrets (groupId, epoch) messageSecrets }
  | .replaceGroupEpochMessageSecrets groupId messageSecrets =>
    { store with
      messageSecrets := putSecrets groupId messageSecrets
        (erase store.messageSecrets fun k => k.1 = groupId) }
  | .deleteGroupEpochMessageSecrets groupId =>
    { store with messageSecrets := erase store.messageSecrets fun k => k.1 = groupId }
  | .pruneGroupEpochMessageSecrets groupId keepFromEpoch currentEpoch =>
    { store with
      messageSecrets := erase store.messageSecrets fun k =>
        k.1 = groupId ∧ (k.2 < keepFromEpoch ∨ currentEpoch < k.2) }
  | .removeProposal groupId proposalRef =>
    { store with proposals := erase store.proposals (· = (groupId, proposalRef)) }
  | .deleteOwnLeafNodes groupId =>
    { store with ownLeafNodes := Function.update store.ownLeafNodes groupId [] }
  | .deleteGroupConfig groupId => store.delete groupId .joinGroupConfig
  | .deleteTree groupId => store.delete groupId .tree
  | .deleteConfirmationTag groupId => store.delete groupId .confirmationTag
  | .deleteGroupState groupId => store.delete groupId .groupState
  | .deleteContext groupId => store.delete groupId .context
  | .deleteInterimTranscriptHash groupId => store.delete groupId .interimTranscriptHash
  | .deleteMessageSecrets groupId => store.delete groupId .messageSecrets
  | .deleteAllResumptionPskSecrets groupId => store.delete groupId .resumptionPskStore
  | .deleteOwnLeafIndex groupId => store.delete groupId .ownLeafIndex
  | .deleteGroupEpochSecrets groupId => store.delete groupId .groupEpochSecrets
  | .deleteApplicationExportTree groupId => store.delete groupId .applicationExportTree
  | .clearProposalQueue groupId =>
    { store with proposals := erase store.proposals fun k => k.1 = groupId }
  | .deleteSignatureKeyPair publicKey =>
    { store with signatureKeys := erase store.signatureKeys (· = publicKey) }
  | .deleteEncryptionKeyPair publicKey =>
    { store with encryptionKeys := erase store.encryptionKeys (· = publicKey) }
  | .deleteEncryptionEpochKeyPairs groupId epoch leafIndex =>
    { store with epochKeyPairs := erase store.epochKeyPairs (· = (groupId, epoch, leafIndex)) }
  | .deleteKeyPackage hashRef =>
    { store with keyPackages := erase store.keyPackages (· = hashRef) }
  | .deletePsk pskId => { store with psks := erase store.psks (· = pskId) }
  | .mlsGroupJoinConfig _ | .tree _ | .groupContext _ | .interimTranscriptHash _
  | .confirmationTag _ | .groupState _ | .messageSecrets _ | .resumptionPskStore _
  | .ownLeafIndex _ | .groupEpochSecrets _ | .applicationExportTree _ | .ownLeafNodes _
  | .queuedProposalRefs _ | .queuedProposals _ | .supportsEpochMessageSecrets
  | .isGroupEpochMessageSecretsMigrated _ | .groupEpochMessageSecrets _ _ | .signatureKeyPair _
  | .encryptionKeyPair _ | .encryptionEpochKeyPairs _ _ _ | .keyPackage _ | .psk _ => store

/-- **What a method returns.** The queued proposals of a group are listed in some order, each
once. -/
def Answers (store : Store C) (reply : Reply C) : StorageOp C → Prop
  | .mlsGroupJoinConfig groupId => reply = .found _ (store.groupData (groupId, .joinGroupConfig))
  | .tree groupId => reply = .found _ (store.groupData (groupId, .tree))
  | .groupContext groupId => reply = .found _ (store.groupData (groupId, .context))
  | .interimTranscriptHash groupId =>
    reply = .found _ (store.groupData (groupId, .interimTranscriptHash))
  | .confirmationTag groupId => reply = .found _ (store.groupData (groupId, .confirmationTag))
  | .groupState groupId => reply = .found _ (store.groupData (groupId, .groupState))
  | .messageSecrets groupId => reply = .found _ (store.groupData (groupId, .messageSecrets))
  | .resumptionPskStore groupId => reply = .found _ (store.groupData (groupId, .resumptionPskStore))
  | .ownLeafIndex groupId => reply = .found _ (store.groupData (groupId, .ownLeafIndex))
  | .groupEpochSecrets groupId => reply = .found _ (store.groupData (groupId, .groupEpochSecrets))
  | .applicationExportTree groupId =>
    reply = .found _ (store.groupData (groupId, .applicationExportTree))
  | .ownLeafNodes groupId => reply = .leafNodes (store.ownLeafNodes groupId)
  | .queuedProposalRefs groupId => ∃ refs, reply = .proposalRefs refs ∧ refs.Nodup ∧
    ∀ ref, ref ∈ refs ↔ (store.proposals (groupId, ref)).isSome
  | .queuedProposals groupId => ∃ proposals, reply = .proposals proposals ∧
    (proposals.map Prod.fst).Nodup ∧ ∀ ref proposal,
      (ref, proposal) ∈ proposals ↔ store.proposals (groupId, ref) = some proposal
  | .supportsEpochMessageSecrets => reply = .flag true
  | .isGroupEpochMessageSecretsMigrated groupId =>
    reply = .flag (store.groupData (groupId, .messageSecrets)).isNone
  | .groupEpochMessageSecrets groupId epoch =>
    reply = .secrets (store.messageSecrets (groupId, epoch))
  | .signatureKeyPair publicKey => reply = .found _ (store.signatureKeys publicKey)
  | .encryptionKeyPair publicKey => reply = .found _ (store.encryptionKeys publicKey)
  | .encryptionEpochKeyPairs groupId epoch leafIndex =>
    reply = .keyPairs ((store.epochKeyPairs (groupId, epoch, leafIndex)).getD [])
  | .keyPackage hashRef => reply = .found _ (store.keyPackages hashRef)
  | .psk pskId => reply = .found _ (store.psks pskId)
  | .writeMlsJoinConfig _ _ | .writeTree _ _ | .writeInterimTranscriptHash _ _
  | .writeContext _ _ | .writeConfirmationTag _ _ | .writeGroupState _ _
  | .writeMessageSecrets _ _ | .writeResumptionPskStore _ _ | .writeOwnLeafIndex _ _
  | .writeGroupEpochSecrets _ _ | .writeApplicationExportTree _ _ | .appendOwnLeafNode _ _
  | .queueProposal _ _ _ | .writeSignatureKeyPair _ _ | .writeEncryptionKeyPair _ _
  | .writeEncryptionEpochKeyPairs _ _ _ _ | .writeKeyPackage _ _ | .writePsk _ _
  | .writeGroupEpochMessageSecrets _ _ _ | .replaceGroupEpochMessageSecrets _ _
  | .deleteGroupEpochMessageSecrets _ | .pruneGroupEpochMessageSecrets _ _ _
  | .removeProposal _ _ | .deleteOwnLeafNodes _ | .deleteGroupConfig _ | .deleteTree _
  | .deleteConfirmationTag _ | .deleteGroupState _ | .deleteContext _
  | .deleteInterimTranscriptHash _ | .deleteMessageSecrets _
  | .deleteAllResumptionPskSecrets _ | .deleteOwnLeafIndex _ | .deleteGroupEpochSecrets _
  | .deleteApplicationExportTree _ | .clearProposalQueue _ | .deleteSignatureKeyPair _
  | .deleteEncryptionKeyPair _ | .deleteEncryptionEpochKeyPairs _ _ _
  | .deleteKeyPackage _ | .deletePsk _ => reply = .done

/-- **The replies of a sequence of methods**, each the answer of the store as the methods before it
have left it. -/
def Explains : Store C → List (StorageOp C) → List (Reply C) → Prop
  | _, [], replies => replies = []
  | _, _ :: _, [] => False
  | store, op :: ops, reply :: replies =>
    store.Answers reply op ∧ (store.apply op).Explains ops replies

end Store

end KChat.Storage
