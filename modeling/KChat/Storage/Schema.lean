import KChat.Lib.Bytes
import KChat.Lib.Table
import KChat.Lib.Transaction

/-!
# The tables of the storage provider

* `Database`: the tables, with the primary keys of the migrations.
* `Codec`: how keys and entities are turned into bytes; `Codec.Lawful`, `byteCodec`.
* `pooled`, `inTx`, `transaction`: a statement on a connection of the pool, one in a transaction,
  and a transaction. `execute`, `queryRow`, `queryMap`: what a statement does.
-/

namespace KChat.Storage

open Lib

def storageProviderVersion : ℕ := 1

/-! ## Rows -/

inductive GroupDataType
  | joinGroupConfig | tree | interimTranscriptHash | context | confirmationTag | groupState
  | messageSecrets | resumptionPskStore | ownLeafIndex | useRatchetTreeExtension
  | groupEpochSecrets | applicationExportTree
  deriving DecidableEq, Repr

structure GroupDataRow where
  providerVersion : ℕ
  groupId : Bytes
  dataType : GroupDataType
  groupData : Bytes
  deriving DecidableEq, Repr

structure EpochKeyPairsRow where
  providerVersion : ℕ
  groupId : Bytes
  epochId : Bytes
  leafIndex : ℕ
  keyPairs : Bytes
  deriving DecidableEq, Repr

structure OwnLeafNodeRow where
  providerVersion : ℕ
  groupId : Bytes
  leafNode : Bytes
  deriving DecidableEq, Repr

structure ProposalRow where
  providerVersion : ℕ
  groupId : Bytes
  proposalRef : Bytes
  proposal : Bytes
  deriving DecidableEq, Repr

structure MessageSecretsRow where
  providerVersion : ℕ
  groupId : Bytes
  epoch : ℤ
  messageSecrets : Bytes
  deriving DecidableEq, Repr

structure DecryptedMessageRow where
  providerVersion : ℕ
  groupId : Bytes
  messageId : String
  ciphertextDigest : Bytes
  plaintext : Bytes
  createdAt : ℤ
  expiresAt : ℤ
  deriving DecidableEq, Repr

structure EpochMigrationStateRow where
  providerVersion : ℕ
  legacyMessageSecretsMigrationDone : ℤ
  deriving DecidableEq, Repr

structure EncryptionKeyRow where
  providerVersion : ℕ
  publicKey : Bytes
  keyPair : Bytes
  deriving DecidableEq, Repr

structure SignatureKeyRow where
  providerVersion : ℕ
  publicKey : Bytes
  signatureKey : Bytes
  deriving DecidableEq, Repr

structure KeyPackageRow where
  providerVersion : ℕ
  keyPackageRef : Bytes
  keyPackage : Bytes
  deriving DecidableEq, Repr

structure PskRow where
  providerVersion : ℕ
  pskId : Bytes
  pskBundle : Bytes
  deriving DecidableEq, Repr

/-! ## Primary keys -/

def GroupDataRow.key (row : GroupDataRow) : Bytes × GroupDataType := (row.groupId, row.dataType)

def EpochKeyPairsRow.key (row : EpochKeyPairsRow) : Bytes × Bytes × ℕ :=
  (row.groupId, row.epochId, row.leafIndex)

def ProposalRow.key (row : ProposalRow) : Bytes × Bytes := (row.groupId, row.proposalRef)

def MessageSecretsRow.key (row : MessageSecretsRow) : ℕ × Bytes × ℤ :=
  (row.providerVersion, row.groupId, row.epoch)

def DecryptedMessageRow.key (row : DecryptedMessageRow) : Bytes × String :=
  (row.groupId, row.messageId)

/-- **The tables.** The table of own leaf nodes has no key but its row id. -/
@[ext]
structure Database where
  groupData : Table GroupDataRow GroupDataRow.key
  epochKeysPairs : Table EpochKeyPairsRow EpochKeyPairsRow.key
  ownLeafNodes : List OwnLeafNodeRow
  proposals : Table ProposalRow ProposalRow.key
  groupEpochMessageSecrets : Table MessageSecretsRow MessageSecretsRow.key
  decryptedApplicationMessages : Table DecryptedMessageRow DecryptedMessageRow.key
  epochMigrationState : Table EpochMigrationStateRow EpochMigrationStateRow.providerVersion
  encryptionKeys : Table EncryptionKeyRow EncryptionKeyRow.publicKey
  signatureKeys : Table SignatureKeyRow SignatureKeyRow.publicKey
  keyPackages : Table KeyPackageRow KeyPackageRow.keyPackageRef
  psks : Table PskRow PskRow.pskId

/-- The tables after the migrations. -/
def Database.empty : Database where
  groupData := .empty
  epochKeysPairs := .empty
  ownLeafNodes := []
  proposals := .empty
  groupEpochMessageSecrets := .empty
  decryptedApplicationMessages := .empty
  epochMigrationState := .empty
  encryptionKeys := .empty
  signatureKeys := .empty
  keyPackages := .empty
  psks := .empty

/-! ## Keys and entities -/

/-- What is serialized. -/
inductive Entity
  | groupId | epochKey | proposalRef | signaturePublicKey | encryptionKey | hashReference | pskId
  | queuedProposal | leafNode | hpkeKeyPair | signatureKeyPair | keyPackage | pskBundle
  | groupData (dataType : GroupDataType)

structure Codec where
  Carrier : Entity → Type
  toVec : ∀ {k}, Carrier k → Except String Bytes
  fromSlice : ∀ {k}, Bytes → Except String (Carrier k)
  /-- a slice of entities -/
  toVecSlice : ∀ {k}, List (Carrier k) → Except String Bytes
  /-- a vector of entities -/
  fromSliceVec : ∀ {k}, Bytes → Except String (List (Carrier k))

/-- **The codec is injective and round-trips values.** -/
structure Codec.Lawful (C : Codec) : Prop where
  injective : ∀ {k} {a b : C.Carrier k} {bytes},
    C.toVec a = .ok bytes → C.toVec b = .ok bytes → a = b
  roundTrip : ∀ {k} {a : C.Carrier k} {bytes}, C.toVec a = .ok bytes → C.fromSlice bytes = .ok a
  roundTripSlice : ∀ {k} {as : List (C.Carrier k)} {bytes},
    C.toVecSlice as = .ok bytes → C.fromSliceVec bytes = .ok as

/-- Keys and entities of one byte. -/
abbrev byteCodec : Codec where
  Carrier _ := UInt8
  toVec a := .ok [a]
  fromSlice bytes :=
    match bytes with
    | [a] => .ok a
    | _ => .error "EndOfStream"
  toVecSlice as := .ok as
  fromSliceVec := .ok

theorem byteCodec_lawful : byteCodec.Lawful where
  injective ha hb := (List.cons.inj ((Except.ok.inj ha).trans (Except.ok.inj hb).symm)).1
  roundTrip ha := by
    cases ha
    rfl
  roundTripSlice ha := by
    cases ha
    rfl

/-- A `u64` as an integer of the database. -/
def u64ToSql (n : ℕ) : Except String ℤ :=
  if n < 2 ^ 63 then .ok n else .error "out of range integral type conversion attempted"

theorem u64ToSql_eq_ok {n : ℕ} {z : ℤ} (h : u64ToSql n = .ok z) : z = n := by
  unfold u64ToSql at h
  split_ifs at h
  cases h
  rfl

/-! ## Statements -/

abbrev Session : Type := Lib.Session Database Unit

/-- A failure is what its error displays. -/
abbrev Surroundings : Type := Lib.Surroundings Database String

abbrev Action (α : Type) : Type := EStateM String Session α

/-- What a statement does to the tables; an error leaves them as they are. -/
abbrev Statement (α : Type) : Type := EStateM String Database α

variable {α ρ : Type}

def execute (f : Database → Database) : Statement Unit := modify f

/-- The first row, if there is one. -/
def queryRow (select : Database → List ρ) (fromRow : ρ → Except String α) :
    Statement (Option α) := do
  ofResult ((select (← get)).head?.mapM fromRow)

/-- All rows. -/
def queryMap (select : Database → List ρ) (fromRow : ρ → Except String α) :
    Statement (List α) := do
  ofResult ((select (← get)).mapM fromRow)

variable (env : Surroundings)

/-- A statement, unless a failure hits it. -/
def attend (x : Statement α) (fault : Option String) : EStateM String (Owning Unit Database) α :=
  match fault with
  | some e => throw e
  | none => onWorld x

/-- A statement on a connection of the pool, which commits by itself. -/
def pooled (x : Statement α) : Action α := unowned (autocommit env (attend x))

/-- A statement in a transaction. -/
def inTx (x : Statement α) : Action α := unowned (call env (attend x))

/-- `SqliteConnectionPool::transaction`. -/
def transaction (x : Action α) : Action α := unowned (Lib.transaction env id (onWorld x))

variable {env}

theorem wp_inTx {x : Statement α} {s : Session} {Q : α → Session → Prop}
    {E : String → Session → Prop}
    (hfault : ∀ e, env.fault s.time = some e → E e s.tick)
    (h : env.fault s.time = none → wp x s.store (fun a db => Q a { s with store := db }.tick)
      fun e db => E e { s with store := db }.tick) : wp (inTx env x) s Q E := by
  rw [inTx, wp_unowned, wp_call]
  cases hf : env.fault s.time with
  | some e => exact hfault e hf
  | none => exact wp_onWorld.mpr (h hf)

theorem wp_pooled {x : Statement α} {s : Session} {Q : α → Session → Prop}
    {E : String → Session → Prop} :
    wp (pooled env x) s Q E ↔ wp (inTx env x) (s.await env) Q E := by
  rw [pooled, inTx, wp_unowned, wp_unowned, wp_autocommit]

end KChat.Storage
