import KChat.Backup.Basic
import KChat.Lib.Keys

/-!
# The keys of an account

HKDF-SHA256 without a salt is a parameter: the 32 bytes for a key and an info string.

* `BackupKeyMaterial`: the master keys. `AccountBackupKey`: what is derived for an account;
  `BackupId.derive`, `BackupObjectContextV1.new`.
* `Info`: what is handed to HKDF; **`Info.bytes_injective`**. `Purpose`, `key`, `path`: what keys are
  derived for, and from what.
* **`keys_separated`**: where HKDF has no collisions, only one purpose has a given key.
-/

namespace KChat.Backup

open Lib

abbrev FixedBytes (n : ℕ) : Type := {bytes : Bytes // bytes.length = n}

abbrev Key : Type := FixedBytes 32

abbrev BackupAccountId : Type := FixedBytes 16

abbrev BackupId : Type := Key

/-- The id of a chunk is not zero. -/
abbrev BackupChunkId : Type := {bytes : Key // bytes.val ≠ List.replicate 32 0}

def BackupChunkId.fromBytes (bytes : Key) : Except BackupErrorCode BackupChunkId :=
  if h : bytes.val = List.replicate 32 0 then .error .invalidArgument else .ok ⟨bytes, h⟩

/-! ## Labels and info strings -/

def accountKeyLabel : Bytes := ascii "KCHAT_BACKUP_V1_ACCOUNT"

def backupIdKeyLabel : Bytes := ascii "KCHAT_BACKUP_V1_NAMESPACE"

def objectKeyLabel : Bytes := ascii "KCHAT_BACKUP_V1_OBJECT"

def descriptorKeyLabel : Bytes := ascii "KCHAT_BACKUP_V1_DESCRIPTOR"

def objectContextLabel : Bytes := ascii "KCHAT_BACKUP_OBJECT_CONTEXT_V1"

def backupFormatVersionV1 : UInt16 := 1

theorem accountKeyLabel_length : accountKeyLabel.length = 23 := rfl

theorem backupIdKeyLabel_length : backupIdKeyLabel.length = 25 := rfl

theorem objectKeyLabel_length : objectKeyLabel.length = 22 := rfl

theorem descriptorKeyLabel_length : descriptorKeyLabel.length = 26 := rfl

theorem objectContextLabel_length : objectContextLabel.length = 30 := rfl

def accountInfo (accountId : BackupAccountId) : Bytes := accountKeyLabel ++ accountId.val

/-- The bytes an object is bound to: a label, the format version, the backup id, the chunk id. -/
def canonicalContext (formatVersion : UInt16) (backupId : BackupId) (chunkId : BackupChunkId) :
    Bytes :=
  objectContextLabel ++ toBE 2 formatVersion.toNat ++ backupId.val ++ chunkId.val.val

def objectInfo (canonicalContext : Bytes) : Bytes := objectKeyLabel ++ canonicalContext

theorem canonicalContext_length (formatVersion : UInt16) (backupId : BackupId)
    (chunkId : BackupChunkId) :
    (canonicalContext formatVersion backupId chunkId).length = 30 + 2 + 32 + 32 := by
  simp only [canonicalContext, List.length_append, toBE_length, objectContextLabel_length,
    backupId.property, chunkId.val.property]

/-! ## Derivation -/

variable (hkdf : Key → Bytes → Key)

/-- A master key restored from a mnemonic. -/
structure MnemonicBackupKey where
  raw : Key

/-- A master key made from a password. -/
structure PasswordBackupKey where
  raw : Key

def MnemonicBackupKey.deriveAccountKeyMaterial (masterKey : MnemonicBackupKey)
    (accountId : BackupAccountId) : Key :=
  hkdf masterKey.raw (accountInfo accountId)

def PasswordBackupKey.deriveAccountKeyMaterial (masterKey : PasswordBackupKey)
    (accountId : BackupAccountId) : Key :=
  hkdf masterKey.raw (accountInfo accountId)

inductive BackupKeyMaterial
  | mnemonic (masterKey : MnemonicBackupKey)
  | password (masterKey : PasswordBackupKey)

/-- The bytes that both kinds of master keys derive from. -/
def BackupKeyMaterial.raw : BackupKeyMaterial → Key
  | .mnemonic masterKey => masterKey.raw
  | .password masterKey => masterKey.raw

def BackupKeyMaterial.deriveAccountKeyMaterial (masterKey : BackupKeyMaterial)
    (accountId : BackupAccountId) : Key :=
  match masterKey with
  | .mnemonic masterKey => masterKey.deriveAccountKeyMaterial hkdf accountId
  | .password masterKey => masterKey.deriveAccountKeyMaterial hkdf accountId

structure AccountBackupKey where
  key : Key

def deriveAccountKey (masterKey : BackupKeyMaterial) (accountId : BackupAccountId) :
    AccountBackupKey where
  key := masterKey.deriveAccountKeyMaterial hkdf accountId

def AccountBackupKey.deriveDescriptor (accountKey : AccountBackupKey) : Key :=
  hkdf accountKey.key descriptorKeyLabel

def AccountBackupKey.deriveBackupId (accountKey : AccountBackupKey) : Key :=
  hkdf accountKey.key backupIdKeyLabel

def AccountBackupKey.deriveObject (accountKey : AccountBackupKey) (canonicalContext : Bytes) : Key :=
  hkdf accountKey.key (objectInfo canonicalContext)

def BackupId.derive (masterKey : BackupKeyMaterial) (accountId : BackupAccountId) : BackupId :=
  (deriveAccountKey hkdf masterKey accountId).deriveBackupId hkdf

/-- The context of an object is made for the account's own backup id only. -/
def BackupObjectContextV1.new (masterKey : BackupKeyMaterial) (accountId : BackupAccountId)
    (backupId : BackupId) (formatVersion : UInt16) (chunkId : BackupChunkId) :
    Except BackupErrorCode BackupObjectContextV1 :=
  if formatVersion ≠ backupFormatVersionV1 then .error .unsupportedFormat
  else if backupId ≠ BackupId.derive hkdf masterKey accountId then .error .contextMismatch
  else
    let canonicalBytes := canonicalContext formatVersion backupId chunkId
    let objectKey := (deriveAccountKey hkdf masterKey accountId).deriveObject hkdf canonicalBytes
    .ok
      { canonicalBytes := canonicalBytes
        objectKey := objectKey.val
        canonicalBytes_length := canonicalContext_length formatVersion backupId chunkId
        objectKey_length := objectKey.property }

@[simp] theorem deriveAccountKey_key (masterKey : BackupKeyMaterial) (accountId : BackupAccountId) :
    (deriveAccountKey hkdf masterKey accountId).key = hkdf masterKey.raw (accountInfo accountId) := by
  cases masterKey <;> rfl

/-! ## What keys are derived for -/

/-- The info strings, with what varies in them. -/
inductive Info
  | account (accountId : BackupAccountId)
  | backup
  | descriptor
  | object (formatVersion : UInt16) (backupId : BackupId) (chunkId : BackupChunkId)

def Info.bytes : Info → Bytes
  | .account accountId => accountInfo accountId
  | .backup => backupIdKeyLabel
  | .descriptor => descriptorKeyLabel
  | .object formatVersion backupId chunkId =>
    objectInfo (canonicalContext formatVersion backupId chunkId)

/-- What a key is derived for. -/
inductive Purpose
  | account (accountId : BackupAccountId)
  | backup (accountId : BackupAccountId)
  | descriptor (accountId : BackupAccountId)
  | object (accountId : BackupAccountId) (chunkId : BackupChunkId)

namespace Purpose

def key (masterKey : BackupKeyMaterial) : Purpose → Key
  | .account accountId => (deriveAccountKey hkdf masterKey accountId).key
  | .backup accountId => BackupId.derive hkdf masterKey accountId
  | .descriptor accountId => (deriveAccountKey hkdf masterKey accountId).deriveDescriptor hkdf
  | .object accountId chunkId => (deriveAccountKey hkdf masterKey accountId).deriveObject hkdf
      (canonicalContext backupFormatVersionV1 (BackupId.derive hkdf masterKey accountId) chunkId)

/-- The info strings on the way to a key. -/
def path (masterKey : BackupKeyMaterial) : Purpose → List Bytes
  | .account accountId => [(Info.account accountId).bytes]
  | .backup accountId => [(Info.account accountId).bytes, Info.backup.bytes]
  | .descriptor accountId => [(Info.account accountId).bytes, Info.descriptor.bytes]
  | .object accountId chunkId => [(Info.account accountId).bytes,
      (Info.object backupFormatVersionV1 (BackupId.derive hkdf masterKey accountId) chunkId).bytes]

end Purpose

/-- The purposes that concern some accounts and some chunks. -/
inductive Concerns (accounts : Set BackupAccountId) (chunks : Set BackupChunkId) : Purpose → Prop
  | account {accountId} (h : accountId ∈ accounts) : Concerns accounts chunks (.account accountId)
  | backup {accountId} (h : accountId ∈ accounts) :
    Concerns accounts chunks (.backup accountId)
  | descriptor {accountId} (h : accountId ∈ accounts) :
    Concerns accounts chunks (.descriptor accountId)
  | object {accountId chunkId} (h : accountId ∈ accounts) (h' : chunkId ∈ chunks) :
    Concerns accounts chunks (.object accountId chunkId)

/-- **HKDF has no collisions** among the pairs of key and info string that it is asked for when the
keys of some accounts and some chunks are derived. -/
def CollisionFree (masterKey : BackupKeyMaterial) (accounts : Set BackupAccountId)
    (chunks : Set BackupChunkId) : Prop :=
  (Asked hkdf masterKey.raw (Purpose.path hkdf masterKey '' Concerns accounts chunks)).InjOn
    (Function.uncurry hkdf)

/-! ## Separation -/

section separation

variable {hkdf} {masterKey : BackupKeyMaterial}

@[simp] theorem accountInfo_length (accountId : BackupAccountId) :
    (accountInfo accountId).length = 39 := by
  simp only [accountInfo, List.length_append, accountKeyLabel_length, accountId.property]

@[simp] theorem objectInfo_length (formatVersion : UInt16) (backupId : BackupId)
    (chunkId : BackupChunkId) :
    (objectInfo (canonicalContext formatVersion backupId chunkId)).length = 118 := by
  simp only [objectInfo, List.length_append, objectKeyLabel_length, canonicalContext_length]

theorem accountInfo_injective : Function.Injective accountInfo := by
  intro accountId accountId' h
  apply Subtype.ext
  exact List.append_cancel_left h

theorem toBE_two_injective : Function.Injective fun version : UInt16 => toBE 2 version.toNat := by
  intro version version' h
  have hof := congrArg ofBE h
  simp only at hof
  rw [ofBE_toBE version.toNat_lt, ofBE_toBE version'.toNat_lt] at hof
  exact UInt16.toNat_inj.mp hof

/-- **A canonical context says what it was built from.** -/
theorem canonicalContext_inj {version version' : UInt16} {backupId backupId' : BackupId}
    {chunkId chunkId' : BackupChunkId} (h : canonicalContext version backupId chunkId =
      canonicalContext version' backupId' chunkId') :
    version = version' ∧ backupId = backupId' ∧ chunkId = chunkId' := by
  unfold canonicalContext at h
  obtain ⟨hfront, hchunk⟩ := List.append_inj' h (by simp [chunkId.val.property, chunkId'.val.property])
  obtain ⟨hfront, hbackup⟩ := List.append_inj' hfront (by simp [backupId.property, backupId'.property])
  have hversion := List.append_cancel_left hfront
  exact ⟨toBE_two_injective hversion, Subtype.ext hbackup, Subtype.ext (Subtype.ext hchunk)⟩

/-- **No two info strings collide**: their lengths tell the purposes apart. -/
theorem Info.bytes_injective : Function.Injective Info.bytes := by
  intro info info' h
  have hlength := congrArg List.length h
  cases info with
  | account accountId =>
    cases info' with
    | account accountId' => exact congrArg _ (accountInfo_injective h)
    | _ => simp [Info.bytes, backupIdKeyLabel_length, descriptorKeyLabel_length] at hlength
  | backup =>
    cases info' with
    | backup => rfl
    | _ => simp [Info.bytes, backupIdKeyLabel_length, descriptorKeyLabel_length] at hlength
  | descriptor =>
    cases info' with
    | descriptor => rfl
    | _ => simp [Info.bytes, backupIdKeyLabel_length, descriptorKeyLabel_length] at hlength
  | object version backupId chunkId =>
    cases info' with
    | object version' backupId' chunkId' =>
      obtain ⟨rfl, rfl, rfl⟩ := canonicalContext_inj (List.append_cancel_left h)
      rfl
    | _ => simp [Info.bytes, backupIdKeyLabel_length, descriptorKeyLabel_length] at hlength

namespace Purpose

/-- A key is what its path leads to. -/
theorem key_eq (purpose : Purpose) :
    purpose.key hkdf masterKey = derive hkdf masterKey.raw (purpose.path hkdf masterKey) := by
  cases purpose <;>
    simp [key, path, derive, Info.bytes, BackupId.derive, AccountBackupKey.deriveBackupId,
      AccountBackupKey.deriveDescriptor, AccountBackupKey.deriveObject]

theorem path_injective : Function.Injective (path hkdf masterKey) := by
  intro purpose purpose' h
  cases purpose <;> cases purpose' <;>
    simp only [path, List.cons.injEq, Info.bytes_injective.eq_iff, reduceCtorEq, and_false,
      and_true, Info.account.injEq, Info.object.injEq, true_and] at h
  · exact congrArg _ h
  · exact congrArg _ h
  · exact congrArg _ h
  · obtain ⟨rfl, -, rfl⟩ := h
    rfl

/-- Account keys are derived from the master key, the other keys from an account key. -/
def level (info : Bytes) : ℕ := if info.length = 39 then 0 else 1

theorem leveled (purpose : Purpose) : Leveled level (purpose.path hkdf masterKey) := by
  have hone : ∀ x, level x = 0 → Leveled level [x] := by
    intro x hx before info after h
    cases before with
    | nil =>
      cases h
      exact hx
    | cons y before => simp at h
  have htwo : ∀ x y, level x = 0 → level y = 1 → Leveled level [x, y] := by
    intro x y hx hy before info after h
    cases before with
    | nil =>
      cases h
      exact hx
    | cons z before =>
      cases before with
      | nil =>
        cases h
        exact hy
      | cons z' before => simp at h
  cases purpose with
  | account accountId => exact hone _ (by simp [level, Info.bytes])
  | backup accountId => exact htwo _ _ (by simp [level, Info.bytes]) rfl
  | descriptor accountId => exact htwo _ _ (by simp [level, Info.bytes]) rfl
  | object accountId chunkId =>
    exact htwo _ _ (by simp [level, Info.bytes]) (by simp [level, Info.bytes])

/-- **Only one purpose has a given key.** -/
theorem key_injOn {accounts : Set BackupAccountId} {chunks : Set BackupChunkId}
    (hinj : CollisionFree hkdf masterKey accounts chunks) {purpose purpose' : Purpose}
    (h : Concerns accounts chunks purpose) (h' : Concerns accounts chunks purpose')
    (hkey : purpose.key hkdf masterKey = purpose'.key hkdf masterKey) : purpose = purpose' := by
  rw [key_eq, key_eq] at hkey
  have hlevel : ∀ whole ∈ path hkdf masterKey '' Concerns accounts chunks, Leveled level whole := by
    rintro _ ⟨purpose, -, rfl⟩
    exact purpose.leveled
  have hne : [] ∉ path hkdf masterKey '' Concerns accounts chunks := by
    rintro ⟨purpose, -, hnil⟩
    cases purpose <;> simp [path] at hnil
  exact path_injective (derive_injOn hinj hlevel hne ⟨purpose, h, rfl⟩ ⟨purpose', h', rfl⟩ hkey)

end Purpose

/-- A context that is made holds the canonical bytes and the key of its object. -/
theorem BackupObjectContextV1.new_eq_ok {accountId : BackupAccountId} {backupId : BackupId}
    {formatVersion : UInt16} {chunkId : BackupChunkId} {context : BackupObjectContextV1}
    (h : BackupObjectContextV1.new hkdf masterKey accountId backupId formatVersion chunkId =
      .ok context) :
    context.canonicalBytes = canonicalContext backupFormatVersionV1
        ((Purpose.backup accountId).key hkdf masterKey) chunkId ∧
      context.objectKey = ((Purpose.object accountId chunkId).key hkdf masterKey).val := by
  unfold BackupObjectContextV1.new at h
  split_ifs at h with hversion hbackup
  obtain rfl := not_not.mp hversion
  obtain rfl := not_not.mp hbackup
  cases h
  exact ⟨rfl, rfl⟩

end separation

/-- **Keys are separated**: the keys and ids derived from one master key are different unless
purpose, account and chunk are the same; no two info strings collide; and the contexts of two
objects have the same canonical bytes, or the same key, iff account and chunk are the same. -/
theorem keys_separated (masterKey : BackupKeyMaterial) (accounts : Set BackupAccountId)
    (chunks : Set BackupChunkId) (hinj : CollisionFree hkdf masterKey accounts chunks) :
    (∀ purpose purpose', Concerns accounts chunks purpose → Concerns accounts chunks purpose' →
      purpose.key hkdf masterKey = purpose'.key hkdf masterKey → purpose = purpose') ∧
    Function.Injective Info.bytes ∧
    ∀ accountId ∈ accounts, ∀ accountId' ∈ accounts, ∀ chunkId ∈ chunks, ∀ chunkId' ∈ chunks,
      ∀ backupId backupId' formatVersion formatVersion' context context',
        BackupObjectContextV1.new hkdf masterKey accountId backupId formatVersion chunkId =
          .ok context →
        BackupObjectContextV1.new hkdf masterKey accountId' backupId' formatVersion' chunkId' =
          .ok context' →
        (context.canonicalBytes = context'.canonicalBytes ↔
          accountId = accountId' ∧ chunkId = chunkId') ∧
        (context.objectKey = context'.objectKey ↔ accountId = accountId' ∧ chunkId = chunkId') := by
  refine ⟨fun _ _ h h' => Purpose.key_injOn hinj h h', Info.bytes_injective, ?_⟩
  intro accountId ha accountId' ha' chunkId hc chunkId' hc' backupId backupId' formatVersion
    formatVersion' context context' hnew hnew'
  obtain ⟨hbytes, hkey⟩ := BackupObjectContextV1.new_eq_ok hnew
  obtain ⟨hbytes', hkey'⟩ := BackupObjectContextV1.new_eq_ok hnew'
  constructor
  · rw [hbytes, hbytes']
    constructor
    · intro h
      obtain ⟨-, hid, hchunk⟩ := canonicalContext_inj h
      have hsame := Purpose.key_injOn hinj (.backup ha) (.backup ha') hid
      exact ⟨Purpose.backup.inj hsame, hchunk⟩
    · rintro ⟨rfl, rfl⟩
      rfl
  · rw [hkey, hkey', Subtype.val_inj]
    constructor
    · intro h
      have hsame := Purpose.key_injOn hinj (.object ha hc) (.object ha' hc') h
      exact Purpose.object.inj hsame
    · rintro ⟨rfl, rfl⟩
      rfl

/-! ### Two accounts and two chunks -/

/-- A derivation that keeps the length and the last byte of the info string, and then the key. -/
def tellingHkdf (key : Key) (info : Bytes) : Key :=
  ⟨(UInt8.ofNat info.length :: info.getLastD 0 :: key.val).take 32, by simp [key.property]⟩

/-- An account id, or a chunk id, that ends in a byte. -/
def idEndingIn (n : ℕ) (last : UInt8) : FixedBytes (n + 1) :=
  ⟨List.replicate n 0 ++ [last], by simp⟩

def chunkEndingIn (last : UInt8) (h : (idEndingIn 31 last).val ≠ List.replicate 32 0) :
    BackupChunkId :=
  ⟨idEndingIn 31 last, h⟩

def twoByTwo : List (Key × Bytes) :=
  let masterKey := BackupKeyMaterial.mnemonic ⟨idEndingIn 31 0⟩
  [idEndingIn 15 1, idEndingIn 15 2].flatMap fun accountId =>
    let accountKey := (deriveAccountKey tellingHkdf masterKey accountId).key
    let backupId := BackupId.derive tellingHkdf masterKey accountId
    [(masterKey.raw, accountInfo accountId), (accountKey, backupIdKeyLabel),
      (accountKey, descriptorKeyLabel),
      (accountKey, objectInfo (canonicalContext 1 backupId (chunkEndingIn 1 (by decide)))),
      (accountKey, objectInfo (canonicalContext 1 backupId (chunkEndingIn 2 (by decide))))]

theorem collisionFree_twoByTwo : CollisionFree tellingHkdf (.mnemonic ⟨idEndingIn 31 0⟩)
    {idEndingIn 15 1, idEndingIn 15 2}
    {chunkEndingIn 1 (by decide), chunkEndingIn 2 (by decide)} := by
  have hlist : ∀ pair ∈ twoByTwo, ∀ pair' ∈ twoByTwo,
      Function.uncurry tellingHkdf pair = Function.uncurry tellingHkdf pair' → pair = pair' := by
    decide +kernel
  have hasked : ∀ pair ∈ Asked tellingHkdf (idEndingIn 31 0) (Purpose.path tellingHkdf
      (.mnemonic ⟨idEndingIn 31 0⟩) '' Concerns {idEndingIn 15 1, idEndingIn 15 2}
      {chunkEndingIn 1 (by decide), chunkEndingIn 2 (by decide)}), pair ∈ twoByTwo := by
    rintro _ ⟨path, info, ⟨_, ⟨purpose, hpurpose, rfl⟩, hpath⟩, rfl⟩
    cases hpurpose with
    | account ha =>
      replace hpath := hpath.trans (List.prefix_append _ [backupIdKeyLabel])
      obtain rfl | rfl := ha <;> obtain h | h := eq_of_asked hpath <;> rw [h] <;> decide +kernel
    | backup ha =>
      obtain rfl | rfl := ha <;> obtain h | h := eq_of_asked hpath <;> rw [h] <;> decide +kernel
    | descriptor ha =>
      obtain rfl | rfl := ha <;> obtain h | h := eq_of_asked hpath <;> rw [h] <;> decide +kernel
    | object ha hc =>
      obtain rfl | rfl := ha <;> obtain rfl | rfl := hc <;> obtain h | h := eq_of_asked hpath <;>
        rw [h] <;> decide +kernel
  intro pair h pair' h'
  exact hlist pair (hasked pair h) pair' (hasked pair' h')

/-- The descriptor key of the first account is none of the second account's. -/
theorem keys_separated_twoByTwo :
    (Purpose.descriptor (idEndingIn 15 1)).key tellingHkdf (.mnemonic ⟨idEndingIn 31 0⟩) ≠
      (Purpose.object (idEndingIn 15 2) (chunkEndingIn 2 (by decide))).key tellingHkdf
        (.mnemonic ⟨idEndingIn 31 0⟩) := by
  intro h
  have hsame := (keys_separated tellingHkdf _ _ _ collisionFree_twoByTwo).1 _ _
    (.descriptor (.inl rfl)) (.object (.inr rfl) (.inr rfl)) h
  cases hsame

end KChat.Backup
