import KChat.Mls.DecryptedMessages
import KChat.Mls.Plain

/-!
# Application messages without cryptography

`plain` over the tables of the storage provider and a record of the messages that were decrypted:
every byte string is an application message, which is its own plaintext and can be decrypted once.

* `plainMessages`, `plainKeyStore`; **`plainKeyStore_lawful`**.
* `Plain.decryptAt`: a client that keeps messages for as long as it may. **`not_decrypt_once_late`**:
  at a later time it refuses a message it has kept.
-/

namespace KChat.Mls

open Lib OpenMls

open Storage (Database)

namespace Plain

/-- What `plain` calls its store, the tables, and the messages that were decrypted. -/
abbrev MessageDb : Type := PlainDb × Database × List Bytes

variable {α : Type}

def inPlain (x : Option String → EStateM String PlainDb α) (fault : Option String) :
    EStateM String MessageDb α :=
  zoom Prod.fst (fun db s => (db, s.2)) (x fault)

def methodInPlain (x : Option String → EStateM String (Owning PlainGroup PlainDb) α)
    (fault : Option String) : EStateM String (Owning PlainGroup MessageDb) α :=
  zoom (fun s => ⟨s.self, s.world.1⟩) (fun t s => ⟨t.self, (t.world, s.world.2)⟩) (x fault)

/-- A message is decrypted unless it was decrypted before. -/
def decryptMessage (message : Bytes) (fault : Option String) :
    EStateM String (Owning PlainGroup MessageDb) (ProcessedMessage Unit PlainProposal) := fun s =>
  match fault with
  | some e => .error e s
  | none =>
    if message ∈ s.world.2.2 then
      .error "The requested secret was deleted to preserve forward secrecy." s
    else
      .ok { groupId := s.self.id, epoch := s.self.epoch, content := .applicationMessage message }
        ⟨s.self, (s.world.1, s.world.2.1, message :: s.world.2.2)⟩

end Plain

open Plain in
/-- **Application messages without cryptography.** -/
@[reducible] def plainMessages : OpenMls where
  Db := MessageDb
  Group := PlainGroup
  StagedCommit := Unit
  QueuedProposal := PlainProposal
  Credential := String
  LeafNode := String
  MessageIn := Bytes
  MessageOut := Unit
  ProtocolMessage := Bytes
  Welcome := ℕ
  StagedWelcome := ℕ
  JoinConfig := Unit
  Signer := Unit
  stored db := plain.stored db.1
  groupId := plain.groupId
  epoch := plain.epoch
  treeHash := plain.treeHash
  ownLeaf := plain.ownLeaf
  credential := plain.credential
  members := plain.members
  member := plain.member
  identity := plain.identity
  proposal := plain.proposal
  sender := plain.sender
  deserialize := .ok
  serialize := plain.serialize
  intoProtocolMessage := .ok
  messageEpoch _ := 0
  extractWelcome _ := none
  loadOptimize fault db := plain.loadOptimize fault db.1
  load fault db := plain.load fault db.1
  readSignatureKeyPair fault db := plain.readSignatureKeyPair fault db.1
  processMessage := decryptMessage
  mergeStagedCommit commit := methodInPlain (plain.mergeStagedCommit commit)
  storePendingProposal proposal := methodInPlain (plain.storePendingProposal proposal)
  commitToPendingProposals signer := methodInPlain (plain.commitToPendingProposals signer)
  mergePendingCommit := methodInPlain plain.mergePendingCommit
  clearPendingCommit := methodInPlain plain.clearPendingCommit
  delete := methodInPlain plain.delete
  stageWelcome config welcome := inPlain (plain.stageWelcome config welcome)
  intoGroup welcome := inPlain (plain.intoGroup welcome)
  customProposal := plain.customProposal

/-- The tables beside the store that `plain` has; ids of groups have one byte. -/
def plainKeyStore : KeyStore plainMessages Storage.byteCodec where
  tables db := db.2.1
  withTables tables db := (db.1, tables, db.2.2)
  groupId id := id.toUTF8.data.toList.headD 0

theorem plainKeyStore_lawful : plainKeyStore.Lawful where
  tables_withTables _ _ := rfl
  withTables_tables _ := rfl
  processMessage message fault s := by
    cases fault with
    | some e => rfl
    | none =>
      simp only [plainMessages, Plain.decryptMessage, EStateM.run]
      split_ifs <;> rfl

namespace Plain

def messageSession : Session plainMessages where
  store := ((sessionAt 1 [] []).store, .empty, [])
  beside := []
  time := 0
  seen := 0

/-- A client that keeps messages for as long as it may, which is longer than can be counted. -/
def longKeeping : UqMls where
  decryptedMessageTtlSeconds := 2562047787542993 * 3600
  pos := by decide

def decryptAt (now : ℤ) (s : Session plainMessages) :
    EStateM.Result Error (Session plainMessages) Bytes :=
  (processApplicationMessageWithWal plainKeyStore id .calm longKeeping "g" "m" [7] now).run s

end Plain

namespace Plain

def keptMessage : Storage.DecryptedMessageRow := newEntry [103] "m" [7] [7] 1700001007 (2 ^ 63 - 1)

end Plain

open Plain in
/-- **A message that is kept** is refused when the time of a new expiry cannot be counted. -/
theorem not_decrypt_once_late :
    outcome (decryptAt 1700001007 messageSession) = .ok [7] ∧
    plainKeyStore.entry (final (decryptAt 1700001007 messageSession)).store "g" "m" =
      some keptMessage ∧
    keptMessage.ciphertextDigest = id [7] ∧ 1700001008 < keptMessage.expiresAt ∧
    outcome (decryptAt 1700001008 (final (decryptAt 1700001007 messageSession))) =
      .error .invalidDecryptedMessageTtl := by
  decide +kernel

open Plain in
theorem decrypt_once_messageSession :
    (final (decryptAt 1700001007 (final (decryptAt 1700001007 messageSession)))).store =
        (final (decryptAt 1700001007 messageSession)).store ∧
      outcome (decryptAt 1700001007 (final (decryptAt 1700001007 messageSession))) = .ok [7] := by
  have hown : plainKeyStore.OwnEntries (final (decryptAt 1700001007 messageSession)).store := by
    unfold KeyStore.OwnEntries
    decide +kernel
  have halone : ∀ t, (Lib.Surroundings.calm : Surroundings plainMessages).others t = [] :=
    fun _ => rfl
  obtain ⟨-, hkept, -⟩ := decrypt_once id Storage.exportBytes plainKeyStore_lawful
    Function.injective_id Storage.exportBytes_exports hown .start (le_refl 1700001007) halone
    longKeeping "g" "m" [7] rfl
  obtain ⟨hstore, hreply⟩ := hkept keptMessage [7] (by decide +kernel) rfl (by decide)
  exact ⟨hstore, hreply⟩

end KChat.Mls
