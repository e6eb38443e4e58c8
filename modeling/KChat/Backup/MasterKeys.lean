import KChat.Backup.Descriptor
import KChat.Lib.Mnemonic

/-!
# Master keys

* `Primitives`: mnemonics, HKDF-SHA256, Argon2id and the parser of account ids, as parameters.
* `MnemonicBackupKey.generate`, `fromMnemonic`, `importFromRaw`; `PasswordBackupKey.generate`,
  `fromPassword`, `importFromRaw`.
* `BackupMasterKey`: the key as the bindings hand it out; `sealDescriptor`, `openDescriptor`,
  `deriveBackupId`, `createObjectContext`.
* `Generated`: a fresh key or an imported one, the secret it belongs to and the bootstrap fields of
  its descriptor. `importWith`: the key that a secret and a stored descriptor give.
  **`Generated.restored`**: the same key; **`BackupMasterKey.openDescriptor_of_seal`**: and the
  descriptor opens under it.
-/

namespace KChat.Backup

open Lib

/-- The functions that master keys rest on. Argon2id takes memory in KiB, iterations, lanes,
password and salt. -/
structure Primitives (μ : Type) where
  bip39 : Bip39 μ
  hkdf : Bytes → Bytes → Key
  argon2id : ℕ → ℕ → ℕ → Bytes → Bytes → Option Key
  parseUuid : String → Option (FixedBytes 16)

def Primitives.deriveHkdf {μ : Type} (P : Primitives μ) (key : Key) (info : Bytes) : Key :=
  P.hkdf key.val info

variable {μ : Type} (P : Primitives μ)

def keyOfRaw (bytes : Bytes) (e : BackupErrorCode) : Except BackupErrorCode Key :=
  if h : bytes.length = 32 then .ok ⟨bytes, h⟩ else .error e

theorem keyOfRaw_val (key : Key) (e : BackupErrorCode) : keyOfRaw key.val e = .ok key :=
  dif_pos key.property

/-- The first step of a computation that gives a result. -/
theorem exists_of_bind_eq_ok {ε α β : Type} {x : Except ε α} {f : α → Except ε β} {b : β}
    (h : x >>= f = .ok b) : ∃ a, x = .ok a ∧ f a = .ok b := by
  cases x with
  | ok a => exact ⟨a, rfl, h⟩
  | error e => cases h

/-! ## Keys of mnemonics -/

namespace MnemonicBackupKey

def masterKeyInfo : Bytes := ascii "KCHAT_BACKUP_V1_MASTER"

def fromParsedMnemonic (mnemonic : μ) : MnemonicBackupKey where
  raw := P.hkdf (P.bip39.toSeed mnemonic) masterKeyInfo

def generate (random : SystemRandom) (wordCount : ℕ) :
    Except BackupErrorCode (String × MnemonicBackupKey) :=
  match entropyLength wordCount with
  | none => .error .invalidArgument
  | some entropyLen =>
    match random entropyLen with
    | none => .error .ioError
    | some entropy =>
      match P.bip39.fromEntropy entropy.val with
      | none => .error .invalidState
      | some mnemonic => .ok (P.bip39.phrase mnemonic, fromParsedMnemonic P mnemonic)

def fromMnemonic (phrase : String) : Except BackupErrorCode MnemonicBackupKey :=
  match P.bip39.parse phrase with
  | none => .error .invalidMnemonic
  | some mnemonic => .ok (fromParsedMnemonic P mnemonic)

def exportRaw (masterKey : MnemonicBackupKey) : Key := masterKey.raw

def importFromRaw (bytes : Bytes) : Except BackupErrorCode MnemonicBackupKey :=
  (keyOfRaw bytes .invalidMnemonicKey).map MnemonicBackupKey.mk

/-- **The phrase of a generated key gives the key.** -/
theorem fromMnemonic_of_generate (hB : P.bip39.Lawful) {random : SystemRandom} {wordCount : ℕ}
    {phrase : String} {masterKey : MnemonicBackupKey}
    (h : generate P random wordCount = .ok (phrase, masterKey)) :
    fromMnemonic P phrase = .ok masterKey := by
  unfold generate at h
  cases hwords : entropyLength wordCount with
  | none =>
    rw [hwords] at h
    cases h
  | some n =>
    rw [hwords] at h
    cases hrandom : random n with
    | none =>
      simp only [hrandom] at h
      cases h
    | some entropy =>
      obtain ⟨mnemonic, hmnemonic, hparse⟩ := hB wordCount n entropy.val hwords entropy.property
      simp only [hrandom, hmnemonic] at h
      cases h
      rw [fromMnemonic, hparse]

end MnemonicBackupKey

/-! ## Keys of passwords -/

namespace PasswordBackupKey

def passwordRootLabel : Bytes := ascii "KCHAT_BACKUP_PASSWORD_ROOT_V1"

def argon2MemoryKibV1 : ℕ := 65536

def argon2IterationsV1 : ℕ := 3

def argon2LanesV1 : ℕ := 4

/-- `granted` says whether the memory that Argon2id works in could be reserved. -/
def fromPassword (granted : Bool) (passwordRawUtf8 : Bytes) (salt : FixedBytes 16) :
    Except BackupErrorCode PasswordBackupKey :=
  if passwordRawUtf8 = [] then .error .emptyPassword
  else if granted = false then .error .invalidState
  else
    match P.argon2id argon2MemoryKibV1 argon2IterationsV1 argon2LanesV1 passwordRawUtf8
      salt.val with
    | none => .error .invalidState
    | some passwordKdf => .ok { raw := P.deriveHkdf passwordKdf passwordRootLabel }

def generate (random : SystemRandom) (granted : Bool) (passwordRawUtf8 : Bytes) :
    Except BackupErrorCode (FixedBytes 16 × PasswordBackupKey) :=
  if passwordRawUtf8 = [] then .error .emptyPassword
  else
    match random 16 with
    | none => .error .ioError
    | some salt => (fromPassword P granted passwordRawUtf8 salt).map fun key => (salt, key)

def exportRaw (masterKey : PasswordBackupKey) : Key := masterKey.raw

def importFromRaw (bytes : Bytes) : Except BackupErrorCode PasswordBackupKey :=
  (keyOfRaw bytes .invalidPasswordKey).map PasswordBackupKey.mk

/-- A key depends on password and salt only, once its memory is granted. -/
theorem fromPassword_granted {granted : Bool} {passwordRawUtf8 : Bytes} {salt : FixedBytes 16}
    {masterKey : PasswordBackupKey}
    (h : fromPassword P granted passwordRawUtf8 salt = .ok masterKey) :
    fromPassword P true passwordRawUtf8 salt = .ok masterKey := by
  unfold fromPassword at h ⊢
  cases granted with
  | true => exact h
  | false =>
    split_ifs at h with hne hgranted
    exact absurd rfl hgranted

/-- **Password and salt of a generated key give the key.** -/
theorem fromPassword_of_generate {random : SystemRandom} {granted : Bool} {passwordRawUtf8 : Bytes}
    {salt : FixedBytes 16} {masterKey : PasswordBackupKey}
    (h : generate P random granted passwordRawUtf8 = .ok (salt, masterKey)) :
    fromPassword P true passwordRawUtf8 salt = .ok masterKey := by
  unfold generate at h
  split_ifs at h with hne
  cases hrandom : random 16 with
  | none =>
    simp only [hrandom] at h
    cases h
  | some drawn =>
    simp only [hrandom] at h
    cases hkey : fromPassword P granted passwordRawUtf8 drawn with
    | error e =>
      rw [hkey] at h
      cases h
    | ok key =>
      rw [hkey] at h
      cases h
      exact fromPassword_granted P hkey

end PasswordBackupKey

/-! ## The key that the bindings hand out -/

inductive BackupKeyMode
  | mnemonic | password
  deriving DecidableEq, Repr

/-- The bootstrap fields that a descriptor is sealed with. -/
inductive BackupDescriptorBootstrap
  | mnemonic
  | password (salt : Bytes)

/-- The bootstrap fields that a descriptor shows. -/
structure BackupDescriptorHeader where
  mode : BackupKeyMode
  salt : Bytes
  deriving DecidableEq, Repr

structure OpenedBackupDescriptor where
  header : BackupDescriptorHeader
  backupId : Bytes
  deriving DecidableEq, Repr

def BackupDescriptorHeader.ofCore (header : DescriptorHeaderV1) : BackupDescriptorHeader where
  mode := match header.backupMode with
    | .mnemonic => .mnemonic
    | .password => .password
  salt := header.salt.val

/-- What is read off a descriptor before there is a key. -/
def parseDescriptorHeader (bytes : Bytes) : Except BackupErrorCode BackupDescriptorHeader :=
  (DescriptorHeaderV1.parse bytes).map .ofCore

def exactArray (n : ℕ) (bytes : Bytes) : Except BackupErrorCode (FixedBytes n) :=
  if h : bytes.length = n then .ok ⟨bytes, h⟩ else .error .invalidArgument

theorem exactArray_eq_ok {n : ℕ} {bytes : Bytes} {array : FixedBytes n}
    (h : exactArray n bytes = .ok array) : array.val = bytes := by
  unfold exactArray at h
  split_ifs at h
  cases h
  rfl

theorem exactArray_val {n : ℕ} (bytes : FixedBytes n) : exactArray n bytes.val = .ok bytes :=
  dif_pos bytes.property

structure BackupMasterKey where
  key : BackupKeyMaterial

structure GeneratedMnemonicBackupKey where
  mnemonic : String
  key : BackupMasterKey

structure GeneratedPasswordBackupKey where
  salt : Bytes
  key : BackupMasterKey

def generateMnemonic (random : SystemRandom) (wordCount : ℕ) :
    Except BackupErrorCode GeneratedMnemonicBackupKey :=
  (MnemonicBackupKey.generate P random wordCount).map fun r =>
    { mnemonic := r.1, key := { key := .mnemonic r.2 } }

def importFromMnemonic (mnemonicPhrase : String) : Except BackupErrorCode BackupMasterKey :=
  (MnemonicBackupKey.fromMnemonic P mnemonicPhrase).map fun key => { key := .mnemonic key }

def importFromPassword (granted : Bool) (passwordRawUtf8 salt : Bytes) :
    Except BackupErrorCode BackupMasterKey := do
  let salt ← exactArray 16 salt
  let key ← PasswordBackupKey.fromPassword P granted passwordRawUtf8 salt
  return { key := .password key }

def generatePassword (random : SystemRandom) (granted : Bool) (passwordRawUtf8 : Bytes) :
    Except BackupErrorCode GeneratedPasswordBackupKey :=
  (PasswordBackupKey.generate P random granted passwordRawUtf8).map fun r =>
    { salt := r.1.val, key := { key := .password r.2 } }

def importFromRaw (mode : BackupKeyMode) (bytes : Bytes) : Except BackupErrorCode BackupMasterKey :=
  match mode with
  | .mnemonic => (MnemonicBackupKey.importFromRaw bytes).map fun key => { key := .mnemonic key }
  | .password => (PasswordBackupKey.importFromRaw bytes).map fun key => { key := .password key }

def BackupAccountId.parse (value : String) : Except BackupErrorCode BackupAccountId :=
  match P.parseUuid value with
  | none => .error .invalidArgument
  | some accountId => .ok accountId

theorem BackupAccountId.parse_eq_ok {value : String} {accountId : BackupAccountId}
    (h : BackupAccountId.parse P value = .ok accountId) : P.parseUuid value = some accountId := by
  unfold BackupAccountId.parse at h
  split at h
  · cases h
  · cases h
    assumption

namespace BackupMasterKey

variable (self : BackupMasterKey) (A : Aead)

def mode : BackupKeyMode :=
  match self.key with
  | .mnemonic _ => .mnemonic
  | .password _ => .password

def exportRaw : Bytes :=
  match self.key with
  | .mnemonic key => key.exportRaw.val
  | .password key => key.exportRaw.val

def deriveBackupId (accountId : String) : Except BackupErrorCode Bytes := do
  let accountId ← BackupAccountId.parse P accountId
  return (BackupId.derive P.deriveHkdf self.key accountId).val

def descriptorHeader (bootstrap : BackupDescriptorBootstrap) :
    Except BackupErrorCode DescriptorHeaderV1 :=
  match self.key, bootstrap with
  | .mnemonic _, .mnemonic => .ok .mnemonic
  | .password _, .password salt => (exactArray 16 salt).map .password
  | _, _ => .error .invalidArgument

def sealDescriptor (accountId : String) (bootstrap : BackupDescriptorBootstrap)
    (random : Option (FixedBytes nonceBytes)) : Except BackupErrorCode Bytes := do
  let accountId ← BackupAccountId.parse P accountId
  let header ← self.descriptorHeader bootstrap
  sealDescriptorV1 P.deriveHkdf A self.key accountId header random

def openDescriptor (accountId : String) (bytes : Bytes) :
    Except BackupErrorCode OpenedBackupDescriptor := do
  let accountId ← BackupAccountId.parse P accountId
  let parsed ← parseDescriptorHeader bytes
  if parsed.mode ≠ self.mode then
    .error .invalidArgument
  else
    let r ← openDescriptorV1 P.deriveHkdf A self.key accountId bytes
    return { header := .ofCore r.1, backupId := r.2.val }

/-- The context of the core, once the backup id is the account's own. -/
def createContext (accountId : BackupAccountId) (backupId : Key) (chunkId : BackupChunkId) :
    Except BackupErrorCode BackupObjectContextV1 :=
  let expectedBackupId := BackupId.derive P.deriveHkdf self.key accountId
  if backupId ≠ expectedBackupId then .error .contextMismatch
  else
    BackupObjectContextV1.new P.deriveHkdf self.key accountId expectedBackupId backupFormatVersionV1
      chunkId

def createObjectContext (accountId : String) (backupId chunkId : Bytes) :
    Except BackupErrorCode BackupObjectContextV1 := do
  let accountId ← BackupAccountId.parse P accountId
  let backupId ← exactArray 32 backupId
  let chunkId ← exactArray 32 chunkId
  let chunkId ← BackupChunkId.fromBytes chunkId
  self.createContext P accountId backupId chunkId

end BackupMasterKey

/-! ## From a fresh key to the device that restores it -/

/-- What the user keeps. -/
inductive BackupSecret
  | phrase (mnemonic : String)
  | password (rawUtf8 : Bytes)
  | raw (bytes : Bytes)

/-- **A fresh key or an imported raw one**, with the secret that is kept and the bootstrap fields of
its descriptor. -/
inductive Generated : BackupSecret → BackupDescriptorBootstrap → BackupMasterKey → Prop
  | mnemonic {random : SystemRandom} {wordCount : ℕ} {r : GeneratedMnemonicBackupKey}
    (h : generateMnemonic P random wordCount = .ok r) :
    Generated (.phrase r.mnemonic) .mnemonic r.key
  | password {random : SystemRandom} {granted : Bool} {rawUtf8 : Bytes}
    {r : GeneratedPasswordBackupKey} (h : generatePassword P random granted rawUtf8 = .ok r) :
    Generated (.password rawUtf8) (.password r.salt) r.key
  | raw {mode : BackupKeyMode} {bytes : Bytes} {bootstrap : BackupDescriptorBootstrap}
    {key : BackupMasterKey} (h : importFromRaw mode bytes = .ok key) :
    Generated (.raw bytes) bootstrap key

/-- The key that a secret and a stored descriptor give, on a device that has nothing else. -/
def importWith (secret : BackupSecret) (descriptor : Bytes) :
    Except BackupErrorCode BackupMasterKey := do
  let header ← parseDescriptorHeader descriptor
  match secret with
  | .phrase mnemonic => importFromMnemonic P mnemonic
  | .password rawUtf8 => importFromPassword P true rawUtf8 header.salt
  | .raw bytes => importFromRaw header.mode bytes

/-- A raw key is of the mode it was imported with. -/
theorem mode_of_importFromRaw {mode : BackupKeyMode} {bytes : Bytes} {key : BackupMasterKey}
    (h : importFromRaw mode bytes = .ok key) : key.mode = mode := by
  cases mode with
  | mnemonic =>
    cases hcore : MnemonicBackupKey.importFromRaw bytes with
    | error e =>
      rw [importFromRaw, hcore] at h
      cases h
    | ok core =>
      rw [importFromRaw, hcore] at h
      cases h
      rfl
  | password =>
    cases hcore : PasswordBackupKey.importFromRaw bytes with
    | error e =>
      rw [importFromRaw, hcore] at h
      cases h
    | ok core =>
      rw [importFromRaw, hcore] at h
      cases h
      rfl

/-- **A key that was exported is imported again.** -/
theorem importFromRaw_exportRaw (key : BackupMasterKey) :
    importFromRaw key.mode key.exportRaw = .ok key := by
  obtain ⟨material⟩ := key
  cases material with
  | mnemonic masterKey =>
    show (MnemonicBackupKey.importFromRaw masterKey.raw.val).map _ = _
    rw [MnemonicBackupKey.importFromRaw, keyOfRaw_val]
    rfl
  | password masterKey =>
    show (PasswordBackupKey.importFromRaw masterKey.raw.val).map _ = _
    rw [PasswordBackupKey.importFromRaw, keyOfRaw_val]
    rfl

section sealed

variable {P} {A : Aead} {secret : BackupSecret} {bootstrap : BackupDescriptorBootstrap}
  {key : BackupMasterKey} {accountId : String} {nonce : FixedBytes nonceBytes} {descriptor : Bytes}

theorem BackupMasterKey.descriptorHeader_eq_ok {header : DescriptorHeaderV1}
    (h : key.descriptorHeader bootstrap = .ok header) : header.Constructible ∧
      (BackupDescriptorHeader.ofCore header).mode = key.mode ∧
      ∀ salt, bootstrap = .password salt → (BackupDescriptorHeader.ofCore header).salt = salt := by
  obtain ⟨material⟩ := key
  cases material with
  | mnemonic masterKey =>
    cases bootstrap with
    | mnemonic =>
      cases h
      exact ⟨.inl rfl, rfl, fun _ hsalt => by cases hsalt⟩
    | password salt => cases h
  | password masterKey =>
    cases bootstrap with
    | mnemonic => cases h
    | password salt =>
      obtain ⟨fixed, hfixed, rfl⟩ : ∃ fixed, exactArray 16 salt = .ok fixed ∧
          header = .password fixed := by
        cases hsalt : exactArray 16 salt with
        | error e =>
          simp only [descriptorHeader, hsalt] at h
          cases h
        | ok fixed =>
          simp only [descriptorHeader, hsalt] at h
          cases h
          exact ⟨fixed, rfl, rfl⟩
      refine ⟨.inr rfl, rfl, fun salt' hsalt' => ?_⟩
      cases hsalt'
      unfold exactArray at hfixed
      split_ifs at hfixed with hlength
      cases hfixed
      rfl

/-- **A sealed descriptor** has a header with the bootstrap fields, in front of what the core
sealed. -/
theorem BackupMasterKey.sealDescriptor_eq_ok
    (h : key.sealDescriptor P A accountId bootstrap (some nonce) = .ok descriptor) :
    ∃ id header, P.parseUuid accountId = some id ∧ key.descriptorHeader bootstrap = .ok header ∧
      sealDescriptorV1 P.deriveHkdf A key.key id header (some nonce) = .ok descriptor := by
  unfold sealDescriptor at h
  cases hid : P.parseUuid accountId with
  | none =>
    simp only [BackupAccountId.parse, hid] at h
    cases h
  | some id =>
    simp only [BackupAccountId.parse, hid] at h
    cases hheader : key.descriptorHeader bootstrap with
    | error e =>
      rw [hheader] at h
      cases h
    | ok header =>
      rw [hheader] at h
      exact ⟨id, header, rfl, rfl, h⟩

/-- What is read off a sealed descriptor without a key. -/
theorem BackupMasterKey.parseDescriptorHeader_of_seal
    (h : key.sealDescriptor P A accountId bootstrap (some nonce) = .ok descriptor) :
    ∃ header, key.descriptorHeader bootstrap = .ok header ∧
      DescriptorHeaderV1.parse descriptor = .ok header := by
  obtain ⟨id, header, -, hheader, hseal⟩ := sealDescriptor_eq_ok h
  obtain ⟨hconstructible, -, -⟩ := descriptorHeader_eq_ok hheader
  have hlength := seal_length hseal
  obtain ⟨-, hbytes⟩ := seal_eq_ok.mp hseal
  refine ⟨header, hheader, DescriptorHeaderV1.parse_eq_ok.mpr ⟨hlength, ?_, hconstructible⟩⟩
  rw [hbytes, List.append_assoc, List.take_left' header.bytes.property]

/-- **The secret gives the key back**, with the descriptor that was stored. -/
theorem Generated.restored (hB : P.bip39.Lawful) (hkey : Generated P secret bootstrap key)
    (h : key.sealDescriptor P A accountId bootstrap (some nonce) = .ok descriptor) :
    importWith P secret descriptor = .ok key := by
  obtain ⟨header, hheader, hparse⟩ := BackupMasterKey.parseDescriptorHeader_of_seal h
  obtain ⟨-, hmode, hsalt⟩ := BackupMasterKey.descriptorHeader_eq_ok hheader
  have hshown : parseDescriptorHeader descriptor = .ok (.ofCore header) := by
    rw [parseDescriptorHeader, hparse]
    rfl
  rw [importWith, hshown]
  cases hkey with
  | raw himport =>
    show importFromRaw (BackupDescriptorHeader.ofCore header).mode _ = _
    rw [hmode, mode_of_importFromRaw himport]
    exact himport
  | @mnemonic random wordCount r hgenerate =>
    unfold generateMnemonic at hgenerate
    cases hcore : MnemonicBackupKey.generate P random wordCount with
    | error e =>
      rw [hcore] at hgenerate
      cases hgenerate
    | ok core =>
      rw [hcore] at hgenerate
      cases hgenerate
      show importFromMnemonic P core.1 = _
      rw [importFromMnemonic, MnemonicBackupKey.fromMnemonic_of_generate P hB hcore]
      rfl
  | @password random granted rawUtf8 r hgenerate =>
    unfold generatePassword at hgenerate
    cases hcore : PasswordBackupKey.generate P random granted rawUtf8 with
    | error e =>
      rw [hcore] at hgenerate
      cases hgenerate
    | ok core =>
      rw [hcore] at hgenerate
      cases hgenerate
      show importFromPassword P true rawUtf8 (BackupDescriptorHeader.ofCore header).salt = _
      simp only [hsalt _ rfl, importFromPassword, exactArray_val,
        PasswordBackupKey.fromPassword_of_generate P hcore, bind, Except.bind]
      rfl

theorem BackupMasterKey.openDescriptor_of_seal (hA : A.Inverts)
    (h : key.sealDescriptor P A accountId bootstrap (some nonce) = .ok descriptor) :
    ∃ opened, key.openDescriptor P A accountId descriptor = .ok opened ∧
      opened.header.mode = key.mode ∧ key.deriveBackupId P accountId = .ok opened.backupId := by
  obtain ⟨id, header, hid, hheader, hseal⟩ := sealDescriptor_eq_ok h
  obtain ⟨header', hheader', hparse⟩ := parseDescriptorHeader_of_seal h
  obtain rfl : header = header' := Except.ok.inj (hheader.symm.trans hheader')
  obtain ⟨hconstructible, hmode, -⟩ := descriptorHeader_eq_ok hheader
  obtain ⟨serialized, hserialized, hopen⟩ : ∃ serialized,
      sealDescriptorV1 P.deriveHkdf A key.key id header (some nonce) = .ok serialized ∧
      openDescriptorV1 P.deriveHkdf A key.key id serialized =
        .ok (header, BackupId.derive P.deriveHkdf key.key id) :=
    open_seal hA key.key id hconstructible nonce
  obtain rfl : descriptor = serialized := Except.ok.inj (hseal.symm.trans hserialized)
  have hshown : parseDescriptorHeader descriptor = .ok (.ofCore header) := by
    rw [parseDescriptorHeader, hparse]
    rfl
  refine ⟨{ header := .ofCore header, backupId := (BackupId.derive P.deriveHkdf key.key id).val },
    ?_, hmode, ?_⟩
  · simp only [openDescriptor, BackupAccountId.parse, hid, hshown, hopen, bind, Except.bind]
    exact if_neg (not_not.mpr hmode)
  · rw [deriveBackupId, BackupAccountId.parse, hid]
    rfl

/-- **There is a context** for the account's own backup id and every chunk id. -/
theorem BackupMasterKey.createObjectContext_of_backupId {backupId : Bytes}
    (h : key.deriveBackupId P accountId = .ok backupId) (chunkId : BackupChunkId) :
    ∃ context, key.createObjectContext P accountId backupId chunkId.val.val = .ok context := by
  unfold deriveBackupId at h
  cases hid : P.parseUuid accountId with
  | none =>
    simp only [BackupAccountId.parse, hid] at h
    cases h
  | some id =>
    simp only [BackupAccountId.parse, hid] at h
    cases h
    have hchunk : BackupChunkId.fromBytes chunkId.val = .ok chunkId := dif_neg chunkId.property
    obtain ⟨context, hcontext⟩ : ∃ context, BackupObjectContextV1.new P.deriveHkdf key.key id
        (BackupId.derive P.deriveHkdf key.key id) backupFormatVersionV1 chunkId = .ok context := by
      simp [BackupObjectContextV1.new]
    refine ⟨context, ?_⟩
    simp only [createObjectContext, BackupAccountId.parse, hid, exactArray_val, hchunk,
      createContext, bind, Except.bind]
    exact (if_neg (not_not.mpr rfl)).trans hcontext

end sealed

theorem firstChunk_ne : (idEndingIn 31 1).val ≠ List.replicate 32 0 := by decide

end KChat.Backup
