import KChat.Backup.Authentic
import KChat.Backup.Basic
import KChat.Backup.Bounded
import KChat.Backup.CallbackProtocol
import KChat.Backup.Callbacks
import KChat.Backup.Chunking
import KChat.Backup.Compression
import KChat.Backup.Decompress
import KChat.Backup.Decryptions
import KChat.Backup.Descriptor
import KChat.Backup.Envelope
import KChat.Backup.Framing
import KChat.Backup.Genuine
import KChat.Backup.Grammar
import KChat.Backup.HeaderCheck
import KChat.Backup.HeaderGate
import KChat.Backup.Incremental
import KChat.Backup.Io
import KChat.Backup.Keys
import KChat.Backup.Limits
import KChat.Backup.MasterKeys
import KChat.Backup.Nonces
import KChat.Backup.Reader
import KChat.Backup.Restore
import KChat.Backup.RoundTrip
import KChat.Backup.Sealing
import KChat.Backup.SourceProtocol
import KChat.Backup.Tasks
import KChat.Backup.ThreadProtocol
import KChat.Backup.Threads
import KChat.Backup.Traced
import KChat.Backup.Unfinished
import KChat.Backup.Writer
import KChat.Backup.WriterSteps
import KChat.Lib.Blocks
import KChat.Lib.Bytes
import KChat.Lib.Delivery
import KChat.Lib.Effect
import KChat.Lib.Failures
import KChat.Lib.Keys
import KChat.Lib.Mnemonic
import KChat.Lib.Prefixes
import KChat.Lib.Record
import KChat.Lib.Regions
import KChat.Lib.Serial
import KChat.Lib.Signature
import KChat.Lib.Sql
import KChat.Lib.StoredZstd
import KChat.Lib.Stream
import KChat.Lib.Table
import KChat.Lib.Transaction
import KChat.Lib.Zstd
import KChat.Mls.Alike
import KChat.Mls.Awaiting
import KChat.Mls.Batch
import KChat.Mls.BothPaths
import KChat.Mls.Calm
import KChat.Mls.Commits
import KChat.Mls.Core
import KChat.Mls.DecryptedMessages
import KChat.Mls.Deletion
import KChat.Mls.Delivery
import KChat.Mls.EpochBatches
import KChat.Mls.ExternalJoins
import KChat.Mls.Failures
import KChat.Mls.Frame
import KChat.Mls.GroupDelete
import KChat.Mls.Identities
import KChat.Mls.Interleaving
import KChat.Mls.Isolation
import KChat.Mls.KeyStore
import KChat.Mls.OpenMls
import KChat.Mls.Operations
import KChat.Mls.PendingCommits
import KChat.Mls.Plain
import KChat.Mls.PlainCommits
import KChat.Mls.PlainJoins
import KChat.Mls.PlainMessages
import KChat.Mls.PlainRemovals
import KChat.Mls.PlainTracking
import KChat.Mls.Provider
import KChat.Mls.Readds
import KChat.Mls.Recovery
import KChat.Mls.Rejoins
import KChat.Mls.Removals
import KChat.Mls.Reports
import KChat.Mls.Rollback
import KChat.Mls.Synced
import KChat.Mls.Tracking
import KChat.Storage.Agreement
import KChat.Storage.EpochSecrets
import KChat.Storage.GroupTables
import KChat.Storage.KeyTables
import KChat.Storage.Migration
import KChat.Storage.Progress
import KChat.Storage.Provider
import KChat.Storage.Refinement
import KChat.Storage.Schema
import KChat.Storage.SchemaVersions
import KChat.Storage.Store
import KChat.Storage.Upgrade
