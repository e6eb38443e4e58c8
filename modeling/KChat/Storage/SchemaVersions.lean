import Mathlib.Data.List.Sort
import KChat.Lib.Sql
import KChat.Storage.Schema

/-!
# The versions of the schema

* `migrations`: the scripts V1 to V6; `schemaAt`: what the first of them make.
* `bootstrapLegacyKchatMigrationHistory`, `runMigrations`.
* `Produced`: a database that has the schema of a version, with any rows. `Recorded`: one whose
  history has the first versions.
* `Runner.Lawful`: what is relied on of refinery. It applies the versions that are missing from its
  history, in order, each together with its row of the history.
-/

namespace KChat.Storage

open Lib Lib.Sql

/-! ## The scripts -/

inductive TableName
  | encryptionKeys | epochKeysPairs | groupData | groupDataNew | keyPackages | ownLeafNodes
  | proposals | psks | signatureKeys | groupEpochMeta | groupEpochMessageSecrets
  | epochMigrationState | decryptedApplicationMessages | legacyMigrations | kchatMigrations
  deriving DecidableEq, Repr

inductive IndexName
  | decryptedApplicationMessagesExpiresAt
  deriving DecidableEq, Repr

abbrev SqlDatabase : Type := Db TableName IndexName

abbrev Script : Type := List (Sql.Statement TableName IndexName)

def integerNotNull (name : String) : Column := ⟨name, .integer, true, none⟩

def blobNotNull (name : String) : Column := ⟨name, .blob, true, none⟩

def textNotNull (name : String) : Column := ⟨name, .text, true, none⟩

def providerVersion : Column := integerNotNull "provider_version"

def groupIdColumn : Column := blobNotNull "group_id"

/-- A table with a blob for its key, which may be null. -/
def keyedByBlob (key value : String) : Declaration where
  columns := [providerVersion, ⟨key, .blob, false, none⟩, blobNotNull value]
  primaryKey := [key]
  autoincrement := false

def epochKeysPairsDeclaration : Declaration where
  columns := [providerVersion, groupIdColumn, blobNotNull "epoch_id", integerNotNull "leaf_index",
    blobNotNull "key_pairs"]
  primaryKey := ["group_id", "epoch_id", "leaf_index"]
  autoincrement := false

def groupDataDeclaration (dataTypes : List String) : Declaration where
  columns := [providerVersion, groupIdColumn, ⟨"data_type", .text, true, some dataTypes⟩,
    blobNotNull "group_data"]
  primaryKey := ["group_id", "data_type"]
  autoincrement := false

def initialDataTypes : List String :=
  ["join_group_config", "tree", "interim_transcript_hash", "context", "confirmation_tag",
    "group_state", "message_secrets", "resumption_psk_store", "own_leaf_index",
    "use_ratchet_tree_extension", "group_epoch_secrets"]

def ownLeafNodesDeclaration : Declaration where
  columns := [providerVersion, ⟨"id", .integer, false, none⟩, groupIdColumn, blobNotNull "leaf_node"]
  primaryKey := ["id"]
  autoincrement := true

def proposalsDeclaration : Declaration where
  columns := [providerVersion, groupIdColumn, blobNotNull "proposal_ref", blobNotNull "proposal"]
  primaryKey := ["group_id", "proposal_ref"]
  autoincrement := false

/-- `CREATE TABLE IF NOT EXISTS` of each. -/
def createTables (declarations : List (TableName × Declaration)) : Script :=
  declarations.map fun d => .createTable true d.1 d.2

def initialTables : List (TableName × Declaration) :=
  [(.encryptionKeys, keyedByBlob "public_key" "key_pair"),
    (.epochKeysPairs, epochKeysPairsDeclaration),
    (.groupData, groupDataDeclaration initialDataTypes),
    (.keyPackages, keyedByBlob "key_package_ref" "key_package"),
    (.ownLeafNodes, ownLeafNodesDeclaration),
    (.proposals, proposalsDeclaration),
    (.psks, keyedByBlob "psk_id" "psk_bundle"),
    (.signatureKeys, keyedByBlob "public_key" "signature_key")]

def allDataTypes : List String := initialDataTypes ++ ["application_export_tree"]

/-- Allows for application export tree data. -/
def constraintAddition : Script :=
  [.createTable false .groupDataNew (groupDataDeclaration allDataTypes),
    .insertSelect .groupDataNew ["provider_version", "group_id", "data_type", "group_data"]
      .groupData,
    .dropTable false .groupData,
    .renameTable .groupDataNew .groupData]

def epochTables : List (TableName × Declaration) :=
  [(.groupEpochMeta,
      { columns := [providerVersion, groupIdColumn, integerNotNull "migration_done"]
        primaryKey := ["provider_version", "group_id"]
        autoincrement := false }),
    (.groupEpochMessageSecrets,
      { columns := [providerVersion, groupIdColumn, integerNotNull "epoch",
          blobNotNull "message_secrets"]
        primaryKey := ["provider_version", "group_id", "epoch"]
        autoincrement := false })]

def migrationStateTables : List (TableName × Declaration) :=
  [(.epochMigrationState,
      { columns := [providerVersion, integerNotNull "legacy_message_secrets_migration_done"]
        primaryKey := ["provider_version"]
        autoincrement := false })]

def dropGroupEpochMeta : Script := [.dropTable true .groupEpochMeta]

def decryptedMessagesTables : List (TableName × Declaration) :=
  [(.decryptedApplicationMessages,
      { columns := [providerVersion, groupIdColumn, textNotNull "message_id",
          blobNotNull "ciphertext_digest", blobNotNull "plaintext", integerNotNull "created_at",
          integerNotNull "expires_at"]
        primaryKey := ["group_id", "message_id"]
        autoincrement := false })]

def createExpiresAtIndex : Script :=
  [.createIndex true .decryptedApplicationMessagesExpiresAt .decryptedApplicationMessages
    ["expires_at"]]

structure Migration where
  version : ℕ
  name : String
  script : Script

def migrations : List Migration :=
  [⟨1, "initial", createTables initialTables⟩,
    ⟨2, "constraint_addition", constraintAddition⟩,
    ⟨3, "epoch_message_secrets_storage", createTables epochTables⟩,
    ⟨4, "epoch_message_secrets_migration_state", createTables migrationStateTables⟩,
    ⟨5, "drop_group_epoch_meta", dropGroupEpochMeta⟩,
    ⟨6, "decrypted_application_messages",
      createTables decryptedMessagesTables ++ createExpiresAtIndex⟩]

/-! ## The histories -/

inductive MigrationError
  /-- A message, and what it is about. -/
  | connection (message : String) (cause : SqlError)
  | application (version : ℕ) (cause : SqlError)
  deriving DecidableEq, Repr

/-- `migration_err`. -/
def migrationErr {α : Type} (message : String) (x : Except SqlError α) : Except MigrationError α :=
  x.mapError (.connection message)

/-- Version, name and checksum. -/
abbrev HistoryEntry : Type := ℤ × String × String

def historyDeclaration : Declaration where
  columns := [⟨"version", .integer, false, none⟩, ⟨"name", .text, false, none⟩,
    ⟨"applied_on", .text, false, none⟩, ⟨"checksum", .text, false, none⟩]
  primaryKey := ["version"]
  autoincrement := false

def getInteger : Option Value → Except SqlError ℤ
  | some (.integer value) => .ok value
  | _ => .error .invalidColumnType

def getText : Option Value → Except SqlError String
  | some (.text value) => .ok value
  | _ => .error .invalidColumnType

def historyEntry (declared : Declaration) (row : List Value) : Except SqlError HistoryEntry := do
  return (← getInteger (declared.value row "version"), ← getText (declared.value row "name"),
    ← getText (declared.value row "checksum"))

/-- By version. -/
def sortHistory (entries : List HistoryEntry) : List HistoryEntry :=
  entries.insertionSort fun entry entry' => entry.1 ≤ entry'.1

/-- `SELECT version, name, checksum FROM … ORDER BY version`, whose rows are read. -/
def historyEntries (t : Sql.Table) : Except SqlError (List HistoryEntry) := do
  return sortHistory (← t.rows.mapM (historyEntry t.declared))

/-- Whether the columns are there. -/
def selects (names : List String) (t : Sql.Table) : Except SqlError Unit :=
  if names ⊆ t.declared.names then .ok () else .error .noSuchColumn

/-! ## Running the migrations -/

def legacyKchatMigrationVersion : ℤ := 5

variable (checksum : ℕ → ℕ) (appliedOn : ℕ → String)

def Migration.entry (migration : Migration) : HistoryEntry :=
  (migration.version, migration.name, toString (checksum migration.version))

/-- The entries of the migrations up to the last one that the old history may have. -/
def expectedMigrations : List HistoryEntry :=
  sortHistory ((migrations.filter fun migration =>
    (migration.version : ℤ) ≤ legacyKchatMigrationVersion).map (·.entry checksum))

def bootstrapLegacyKchatMigrationHistory (db : SqlDatabase) : Except MigrationError SqlDatabase :=
  if (db.tables .kchatMigrations).isSome then .ok db
  else
    match db.tables .legacyMigrations with
    | none => .ok db
    | some legacy => do
      migrationErr "failed to read legacy migration history"
        (selects ["version", "name", "checksum"] legacy)
      let legacyMigrations ← migrationErr "failed to collect legacy migration history"
        (historyEntries legacy)
      if legacyMigrations = expectedMigrations checksum then
        migrationErr "failed to create KChat migration history table" (execAll
          [.createTable false .kchatMigrations historyDeclaration,
            .insertSelect .kchatMigrations ["version", "name", "applied_on", "checksum"]
              .legacyMigrations] db)
      else .ok db

/-- A migration and its row of the history, in one transaction. -/
def applyMigration (migration : Migration) (db : SqlDatabase) : Except MigrationError SqlDatabase :=
  (execAll (migration.script ++ [.insertValues .kchatMigrations
    [.integer migration.version, .text migration.name, .text (appliedOn migration.version),
      .text (toString (checksum migration.version))]]) db).mapError (.application migration.version)

/-- The migrations that are not recorded, in order. -/
def applyMissing (recorded : List ℤ) :
    List Migration → SqlDatabase → Except MigrationError SqlDatabase
  | [], db => .ok db
  | migration :: rest, db =>
    if (migration.version : ℤ) ∈ recorded then applyMissing recorded rest db
    else do
      let db ← applyMigration checksum appliedOn migration db
      applyMissing recorded rest db

/-- `SqliteStorageProvider::run_migrations`, with the runner of refinery. -/
def SqliteStorageProvider.runMigrations (run : SqlDatabase → Except MigrationError SqlDatabase)
    (db : SqlDatabase) : Except MigrationError SqlDatabase := do
  let db ← bootstrapLegacyKchatMigrationHistory checksum db
  run db

/-! ## The schema of a version -/

/-- What the first migrations make of an empty database. -/
def schemaAt (k : ℕ) : SqlDatabase :=
  match execAll ((migrations.take k).flatMap (·.script)) .empty with
  | .ok db => db
  | .error _ => .empty

def IsHistory (name : TableName) : Prop := name = .legacyMigrations ∨ name = .kchatMigrations

instance (name : TableName) : Decidable (IsHistory name) := inferInstanceAs (Decidable (_ ∨ _))

/-- **The schema is that of version `k`**, whatever the rows are and whatever the tables of the
histories are. -/
structure Produced (k : ℕ) (db : SqlDatabase) : Prop where
  declared : ∀ name, ¬IsHistory name → db.declared name = (schemaAt k).declared name
  indexes : db.indexes = (schemaAt k).indexes

/-- The history has the first `j` migrations. -/
def Recorded (j : ℕ) (db : SqlDatabase) : Prop :=
  ∃ history, db.tables .kchatMigrations = some history ∧ history.declared = historyDeclaration ∧
    historyEntries history = .ok ((migrations.take j).map (·.entry checksum))

/-- **What is relied on of refinery**: it makes its history if there is none, and applies the
migrations that are missing from it. -/
structure Runner.Lawful (run : SqlDatabase → Except MigrationError SqlDatabase) : Prop where
  asserts : ∀ {db}, db.tables .kchatMigrations = none →
    run db = run (db.set .kchatMigrations (some (.empty historyDeclaration)))
  applies : ∀ {db j}, Recorded checksum j db → run db = applyMissing checksum appliedOn
    (((migrations.take j).map (·.entry checksum)).map (·.1)) migrations db

end KChat.Storage
