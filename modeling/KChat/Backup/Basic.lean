import KChat.Lib.Bytes

/-!
# Backup objects: error codes, limits and the object context

* `BackupErrorCode`; the limits of format V1; `checkedAddLimited`, the addition that enforces them.
* `BackupObjectContextV1`: the object key and the canonical context every block is bound to.
-/

namespace KChat.Backup

open Lib

/-- The codes a backup operation fails with. -/
inductive BackupErrorCode
  | invalidArgument | emptyPassword | invalidMnemonic | invalidMnemonicKey | invalidPasswordKey
  | unsupportedFormat | contextMismatch | ioError | invalidState | authenticationFailed
  | resourceLimitExceeded | cancelled | integrityMismatch | malformedObject | invalidCompressedData
  deriving DecidableEq, Repr

/-! ## Limits -/

def maxCiphertextObjectBytesV1 : ℕ := 256 * 1024 * 1024

def maxCompressedObjectBytesV1 : ℕ := 256 * 1024 * 1024

def maxPlaintextObjectBytesV1 : ℕ := 1024 * 1024 * 1024

def maxZstdWindowBytesV1 : ℕ := 8 * 1024 * 1024

def maxEncryptedBlocksPerObjectV1 : ℕ := 4096

def maxIoChunkBytesV1 : ℕ := 64 * 1024

/-- Addition of `u64` that stays within `maximum`. -/
def checkedAddLimited (current added maximum : ℕ) : Except BackupErrorCode ℕ :=
  if current + added < 2 ^ 64 ∧ current + added ≤ maximum then .ok (current + added)
  else .error .resourceLimitExceeded

theorem checkedAddLimited_eq_ok {current added maximum total : ℕ}
    (h : checkedAddLimited current added maximum = .ok total) :
    total = current + added ∧ total ≤ maximum := by
  unfold checkedAddLimited at h
  split_ifs at h with hle
  cases h
  exact ⟨rfl, hle.2⟩

theorem checkedAddLimited_of_le {current added maximum : ℕ} (h : current + added ≤ maximum)
    (hmax : maximum < 2 ^ 64) :
    checkedAddLimited current added maximum = .ok (current + added) :=
  if_pos ⟨h.trans_lt hmax, h⟩

/-! ## The object context -/

/-- The object key and the canonical context: a label of 30 bytes, the format version, the backup
id and the chunk id. -/
structure BackupObjectContextV1 where
  canonicalBytes : Bytes
  objectKey : Bytes
  canonicalBytes_length : canonicalBytes.length = 30 + 2 + 32 + 32
  objectKey_length : objectKey.length = 32

instance : Inhabited BackupObjectContextV1 where
  default :=
    { canonicalBytes := List.replicate 96 0
      objectKey := List.replicate 32 0
      canonicalBytes_length := rfl
      objectKey_length := rfl }

/-- A STREAM nonce prefix: the random 19 bytes of an object. -/
abbrev NoncePrefix : Type := {nonce : Bytes // nonce.length = 19}

instance : Inhabited NoncePrefix := ⟨⟨List.replicate 19 0, rfl⟩⟩

end KChat.Backup
