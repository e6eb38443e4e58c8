import KChat.Backup.Envelope
import KChat.Backup.Keys

/-!
# The descriptor of a backup

A descriptor of 110 bytes: a header of 26 bytes in the clear, a nonce, and the encrypted backup id.

* `DescriptorHeaderV1`: `mnemonic`, `password`, `parse`; **`parse_eq_ok`**: what is accepted is what
  the two constructors build.
* `sealDescriptorV1`, `openDescriptorV1`; `open_seal`, `SealedDescriptor.of_open`.
* **`descriptor_codec`**: the codec as a whole.
-/

namespace KChat.Backup

open Lib

/-- The `length` bytes from `start` on. -/
def slice (start length : ℕ) (bytes : Bytes) : Bytes := (bytes.drop start).take length

/-! ## The header -/

def descriptorMagic : Bytes := [0x4b, 0x43, 0x42, 0x44]

def descriptorFormatVersion : ℕ := 1

def mnemonicMode : UInt8 := 1

def passwordMode : UInt8 := 2

def mnemonicKdfProfile : ℕ := 0

def passwordKdfProfile : ℕ := 1

def headerBytes : ℕ := 26

def nonceBytes : ℕ := 24

def plaintextBytes : ℕ := 44

def serializedBytes : ℕ := headerBytes + nonceBytes + plaintextBytes + 16

def descriptorAadLabel : Bytes := ascii "KCHAT_BACKUP_DESCRIPTOR_V1"

inductive DescriptorBackupModeV1
  | mnemonic | password
  deriving DecidableEq, Repr

@[ext] structure DescriptorHeaderV1 where
  bytes : FixedBytes headerBytes
  deriving DecidableEq

namespace DescriptorHeaderV1

def mnemonic : DescriptorHeaderV1 where
  bytes := ⟨descriptorMagic ++ [0, 1, mnemonicMode] ++ List.replicate 19 0, rfl⟩

/-- The mode is set, and then the profile and the salt are copied behind byte 8. -/
def password (salt : FixedBytes 16) : DescriptorHeaderV1 where
  bytes := ⟨(mnemonic.bytes.val.set 6 passwordMode).take 8 ++ toBE 2 passwordKdfProfile ++ salt.val, by
    rw [List.length_append, salt.property]
    rfl⟩

def validate (header : DescriptorHeaderV1) : Except BackupErrorCode Unit :=
  let bytes := header.bytes.val
  if bytes.take 4 ≠ descriptorMagic ∨ slice 4 2 bytes ≠ toBE 2 descriptorFormatVersion then
    .error .unsupportedFormat
  else if slice 7 1 bytes ≠ [0] then .error .unsupportedFormat
  else if slice 6 1 bytes = [mnemonicMode] ∧ slice 8 2 bytes = toBE 2 mnemonicKdfProfile ∧
      bytes.drop 10 = List.replicate 16 0 then .ok ()
  else if slice 6 1 bytes = [passwordMode] ∧ slice 8 2 bytes = toBE 2 passwordKdfProfile then .ok ()
  else .error .unsupportedFormat

def parse (serialized : Bytes) : Except BackupErrorCode DescriptorHeaderV1 :=
  if h : serialized.length = serializedBytes then
    let header : DescriptorHeaderV1 := ⟨serialized.take headerBytes, by rw [List.length_take, h]; rfl⟩
    header.validate.map fun _ => header
  else .error .invalidArgument

def backupMode (header : DescriptorHeaderV1) : DescriptorBackupModeV1 :=
  if slice 6 1 header.bytes.val = [mnemonicMode] then .mnemonic else .password

def salt (header : DescriptorHeaderV1) : FixedBytes 16 :=
  ⟨header.bytes.val.drop 10, by rw [List.length_drop, header.bytes.property]; rfl⟩

/-- The header is one that a constructor builds. -/
def Constructible (header : DescriptorHeaderV1) : Prop :=
  header = mnemonic ∨ header = password header.salt

theorem password_bytes (salt : FixedBytes 16) :
    (password salt).bytes.val = descriptorMagic ++ [0, 1, passwordMode, 0, 0, 1] ++ salt.val := rfl

@[simp] theorem password_salt (salt : FixedBytes 16) : (password salt).salt = salt := rfl

@[simp] theorem mnemonic_backupMode : mnemonic.backupMode = .mnemonic := rfl

@[simp] theorem password_backupMode (salt : FixedBytes 16) :
    (password salt).backupMode = .password := rfl

theorem bytes_eq (header : DescriptorHeaderV1) : header.bytes.val =
    header.bytes.val.take 4 ++ slice 4 2 header.bytes.val ++ slice 6 1 header.bytes.val ++
      slice 7 1 header.bytes.val ++ slice 8 2 header.bytes.val ++ header.bytes.val.drop 10 := by
  generalize header.bytes.val = bytes
  have hfields : ∀ start length : ℕ,
      slice start length bytes ++ bytes.drop (start + length) = bytes.drop start := by
    intro start length
    unfold slice
    rw [← List.drop_drop, List.take_append_drop]
  simp only [List.append_assoc]
  rw [hfields 8 2, hfields 7 1, hfields 6 1, hfields 4 2, List.take_append_drop]

/-- **What is valid is what the two constructors build.** -/
theorem validate_eq_ok {header : DescriptorHeaderV1} :
    header.validate = .ok () ↔ header.Constructible := by
  constructor
  · intro h
    have hbytes := header.bytes_eq
    unfold validate at h
    simp only at h
    split_ifs at h with hfront hreserved hmnemonic hpassword
    · obtain ⟨hmagic, hversion⟩ := not_or.mp hfront
      obtain ⟨hmode, hprofile, hsalt⟩ := hmnemonic
      rw [not_not.mp hmagic, not_not.mp hversion, not_not.mp hreserved, hmode, hprofile,
        hsalt] at hbytes
      left
      ext1
      apply Subtype.ext
      exact hbytes
    · obtain ⟨hmagic, hversion⟩ := not_or.mp hfront
      obtain ⟨hmode, hprofile⟩ := hpassword
      rw [not_not.mp hmagic, not_not.mp hversion, not_not.mp hreserved, hmode, hprofile] at hbytes
      right
      ext1
      apply Subtype.ext
      exact hbytes
  · rintro (rfl | h)
    · rfl
    · rw [h]
      generalize header.salt = salt
      have hlength := salt.property
      simp [validate, password_bytes, slice, descriptorMagic, descriptorFormatVersion, toBE,
        mnemonicMode, passwordMode, passwordKdfProfile]

/-- **What is accepted** is 110 bytes that begin with the header of a constructor. -/
theorem parse_eq_ok {serialized : Bytes} {header : DescriptorHeaderV1} :
    parse serialized = .ok header ↔ serialized.length = serializedBytes ∧
      header.bytes.val = serialized.take headerBytes ∧ header.Constructible := by
  unfold parse
  constructor
  · intro h
    split_ifs at h with hlength
    dsimp only at h
    cases hvalid : validate ⟨serialized.take headerBytes, by rw [List.length_take, hlength]; rfl⟩ with
    | error e =>
      rw [hvalid] at h
      cases h
    | ok u =>
      rw [hvalid] at h
      cases h
      exact ⟨hlength, rfl, validate_eq_ok.mp hvalid⟩
  · rintro ⟨hlength, hbytes, hvalid⟩
    rw [dif_pos hlength]
    dsimp only
    have hheader : (⟨serialized.take headerBytes, by rw [List.length_take, hlength]; rfl⟩ :
        DescriptorHeaderV1) = header := by
      ext1
      apply Subtype.ext
      exact hbytes.symm
    rw [hheader, validate_eq_ok.mpr hvalid]
    rfl

end DescriptorHeaderV1

/-! ## Sealing and opening -/

section codec

variable (hkdf : Key → Bytes → Key) (A : Aead)

def deriveDescriptorKey (masterKey : BackupKeyMaterial) (accountId : BackupAccountId) : Key :=
  (deriveAccountKey hkdf masterKey accountId).deriveDescriptor hkdf

def descriptorPlaintext (backupId : BackupId) : Bytes :=
  descriptorMagic ++ toBE 2 descriptorFormatVersion ++ backupId.val ++ toBE 2 1 ++ List.replicate 4 0

def validatePlaintext (plaintext : Bytes) (backupId : BackupId) : Except BackupErrorCode Unit :=
  if plaintext.length ≠ plaintextBytes ∨ plaintext.take 4 ≠ descriptorMagic ∨
      slice 4 2 plaintext ≠ toBE 2 descriptorFormatVersion ∨ slice 6 32 plaintext ≠ backupId.val ∨
      slice 38 2 plaintext ≠ toBE 2 1 ∨ slice 40 4 plaintext ≠ List.replicate 4 0 then
    .error .authenticationFailed
  else .ok ()

/-- What the ciphertext is bound to beside key and nonce. -/
def descriptorAad (header : DescriptorHeaderV1) (backupId : BackupId) : Bytes :=
  descriptorAadLabel ++ header.bytes.val ++ backupId.val

/-- `random` is the nonce, unless the system gives no randomness. -/
def sealDescriptorV1 (masterKey : BackupKeyMaterial) (accountId : BackupAccountId)
    (header : DescriptorHeaderV1) (random : Option (FixedBytes nonceBytes)) :
    Except BackupErrorCode Bytes := do
  header.validate
  let backupId := BackupId.derive hkdf masterKey accountId
  let descriptorKey := deriveDescriptorKey hkdf masterKey accountId
  let aad := descriptorAad header backupId
  let plaintext := descriptorPlaintext backupId
  match random with
  | none => .error .ioError
  | some nonce =>
    return header.bytes.val ++ nonce.val ++ A.encrypt descriptorKey.val nonce.val aad plaintext

def openDescriptorV1 (masterKey : BackupKeyMaterial) (accountId : BackupAccountId)
    (serialized : Bytes) : Except BackupErrorCode (DescriptorHeaderV1 × BackupId) := do
  let header ← DescriptorHeaderV1.parse serialized
  let backupId := BackupId.derive hkdf masterKey accountId
  let descriptorKey := deriveDescriptorKey hkdf masterKey accountId
  let aad := descriptorAad header backupId
  let nonce := slice headerBytes nonceBytes serialized
  match A.decrypt descriptorKey.val nonce aad (serialized.drop (headerBytes + nonceBytes)) with
  | none => .error .authenticationFailed
  | some plaintext =>
    validatePlaintext plaintext backupId
    return (header, backupId)

variable {hkdf A} {masterKey : BackupKeyMaterial} {accountId : BackupAccountId}
  {header : DescriptorHeaderV1} {serialized : Bytes}

theorem descriptorPlaintext_length (backupId : BackupId) :
    (descriptorPlaintext backupId).length = plaintextBytes := by
  simp only [descriptorPlaintext, List.length_append, toBE_length, List.length_replicate,
    backupId.property]
  rfl

theorem validatePlaintext_descriptorPlaintext (backupId : BackupId) :
    validatePlaintext (descriptorPlaintext backupId) backupId = .ok () := by
  have hlength := backupId.property
  have hrest : backupId.val.drop 34 = [] := List.drop_eq_nil_of_le (by omega)
  have hbytes : descriptorPlaintext backupId =
      descriptorMagic ++ [0, 1] ++ backupId.val ++ [0, 1] ++ List.replicate 4 0 := rfl
  unfold validatePlaintext
  rw [if_neg]
  rw [descriptorPlaintext_length, hbytes]
  simp [slice, descriptorMagic, descriptorFormatVersion, toBE, hlength, List.drop_append,
    hrest]

/-- A header, a nonce and a ciphertext are found again in the bytes they make. -/
theorem parts_of_serialized (header nonce : Bytes) (ct : Bytes) (hheader : header.length = headerBytes)
    (hnonce : nonce.length = nonceBytes) :
    (header ++ nonce ++ ct).take headerBytes = header ∧
      slice headerBytes nonceBytes (header ++ nonce ++ ct) = nonce ∧
      (header ++ nonce ++ ct).drop (headerBytes + nonceBytes) = ct := by
  rw [List.append_assoc]
  refine ⟨List.take_left' hheader, ?_, ?_⟩
  · rw [slice, List.drop_left' hheader, List.take_left' hnonce]
  · rw [← List.drop_drop, List.drop_left' hheader, List.drop_left' hnonce]

theorem seal_eq_ok {nonce : FixedBytes nonceBytes} :
    sealDescriptorV1 hkdf A masterKey accountId header (some nonce) = .ok serialized ↔
      header.Constructible ∧ serialized = header.bytes.val ++ nonce.val ++
        A.encrypt (deriveDescriptorKey hkdf masterKey accountId).val nonce.val
          (descriptorAad header (BackupId.derive hkdf masterKey accountId))
          (descriptorPlaintext (BackupId.derive hkdf masterKey accountId)) := by
  rw [← DescriptorHeaderV1.validate_eq_ok]
  unfold sealDescriptorV1
  cases header.validate with
  | error e => simp [bind, Except.bind]
  | ok u => simp [bind, Except.bind, pure, Except.pure, eq_comm]

theorem seal_length {nonce : FixedBytes nonceBytes}
    (h : sealDescriptorV1 hkdf A masterKey accountId header (some nonce) = .ok serialized) :
    serialized.length = serializedBytes := by
  obtain ⟨-, rfl⟩ := seal_eq_ok.mp h
  rw [List.length_append, List.length_append, header.bytes.property, nonce.property,
    A.encrypt_length, descriptorPlaintext_length]
  rfl

/-- **What is opened** begins with a header of a constructor, and the rest decrypts to the plaintext
that names the backup. -/
theorem open_eq_ok {backupId : BackupId}
    (h : openDescriptorV1 hkdf A masterKey accountId serialized = .ok (header, backupId)) :
    DescriptorHeaderV1.parse serialized = .ok header ∧
      backupId = BackupId.derive hkdf masterKey accountId ∧
      ∃ plaintext, A.decrypt (deriveDescriptorKey hkdf masterKey accountId).val
        (slice headerBytes nonceBytes serialized) (descriptorAad header backupId)
        (serialized.drop (headerBytes + nonceBytes)) = some plaintext := by
  unfold openDescriptorV1 at h
  cases hparse : DescriptorHeaderV1.parse serialized with
  | error e =>
    rw [hparse] at h
    cases h
  | ok parsed =>
    rw [hparse] at h
    simp only [bind, Except.bind] at h
    split at h
    · cases h
    · rename_i plaintext hdecrypt
      cases hvalid : validatePlaintext plaintext (BackupId.derive hkdf masterKey accountId) with
      | error e =>
        rw [hvalid] at h
        cases h
      | ok u =>
        rw [hvalid] at h
        cases h
        exact ⟨rfl, rfl, plaintext, hdecrypt⟩

theorem open_seal (hA : A.Inverts) (masterKey : BackupKeyMaterial) (accountId : BackupAccountId)
    (hheader : header.Constructible) (nonce : FixedBytes nonceBytes) :
    ∃ serialized, sealDescriptorV1 hkdf A masterKey accountId header (some nonce) = .ok serialized ∧
      openDescriptorV1 hkdf A masterKey accountId serialized =
        .ok (header, BackupId.derive hkdf masterKey accountId) := by
  have hsealed : sealDescriptorV1 hkdf A masterKey accountId header (some nonce) = .ok _ :=
    seal_eq_ok.mpr ⟨hheader, rfl⟩
  refine ⟨_, hsealed, ?_⟩
  have hseal := seal_length hsealed
  obtain ⟨htake, hnonce, hct⟩ := parts_of_serialized header.bytes.val nonce.val
    (A.encrypt (deriveDescriptorKey hkdf masterKey accountId).val nonce.val
      (descriptorAad header (BackupId.derive hkdf masterKey accountId))
      (descriptorPlaintext (BackupId.derive hkdf masterKey accountId)))
    header.bytes.property nonce.property
  have hparse := DescriptorHeaderV1.parse_eq_ok.mpr ⟨hseal, htake.symm, hheader⟩
  rw [openDescriptorV1, hparse]
  simp only [bind, Except.bind]
  rw [hnonce, hct, hA]
  dsimp only
  rw [validatePlaintext_descriptorPlaintext]
  rfl

end codec

/-! ## What was sealed -/

/-- **A descriptor that was sealed.** -/
structure SealedDescriptor (hkdf : Key → Bytes → Key) (A : Aead) where
  masterKey : BackupKeyMaterial
  accountId : BackupAccountId
  header : DescriptorHeaderV1
  nonce : FixedBytes nonceBytes
  bytes : Bytes
  isSealed : sealDescriptorV1 hkdf A masterKey accountId header (some nonce) = .ok bytes

section authentic

variable {hkdf : Key → Bytes → Key} {A : Aead} {masterKey : BackupKeyMaterial}
  {accountId : BackupAccountId} {descriptors : Set (SealedDescriptor hkdf A)}

/-- What is derived for the key of a descriptor. -/
def descriptorQueries (hkdf : Key → Bytes → Key) (masterKey : BackupKeyMaterial)
    (accountId : BackupAccountId) : Set (Key × Bytes) :=
  Asked hkdf masterKey.raw {(Purpose.descriptor accountId).path hkdf masterKey}

/-- **Key derivation is injective** on what is derived for a descriptor that is opened, and for the
descriptors that were sealed. -/
def InjectiveDerivation (descriptors : Set (SealedDescriptor hkdf A)) (masterKey : BackupKeyMaterial)
    (accountId : BackupAccountId) : Prop :=
  {pair | pair ∈ descriptorQueries hkdf masterKey accountId ∨
    ∃ o ∈ descriptors, pair ∈ descriptorQueries hkdf o.masterKey o.accountId}.InjOn
      (Function.uncurry hkdf)

/-- **An ideal AEAD**: under the descriptor key of an account only what was sealed decrypts, with its
nonce and its associated data. -/
def IdealDescriptors (descriptors : Set (SealedDescriptor hkdf A)) (masterKey : BackupKeyMaterial)
    (accountId : BackupAccountId) : Prop :=
  A.Authentic (deriveDescriptorKey hkdf masterKey accountId).val fun nonce aad msg =>
    ∃ o ∈ descriptors, deriveDescriptorKey hkdf o.masterKey o.accountId =
        deriveDescriptorKey hkdf masterKey accountId ∧ o.nonce.val = nonce ∧
      descriptorAad o.header (BackupId.derive hkdf o.masterKey o.accountId) = aad ∧
      descriptorPlaintext (BackupId.derive hkdf o.masterKey o.accountId) = msg

theorem mem_descriptorQueries (hkdf : Key → Bytes → Key) (masterKey : BackupKeyMaterial)
    (accountId : BackupAccountId) :
    (masterKey.raw, accountInfo accountId) ∈ descriptorQueries hkdf masterKey accountId ∧
      ((deriveAccountKey hkdf masterKey accountId).key, descriptorKeyLabel) ∈
        descriptorQueries hkdf masterKey accountId := by
  constructor
  · exact ⟨[], _, ⟨_, rfl, ⟨[descriptorKeyLabel], rfl⟩⟩, rfl⟩
  · refine ⟨[accountInfo accountId], descriptorKeyLabel, ⟨_, rfl, List.prefix_refl _⟩, ?_⟩
    rw [deriveAccountKey_key]
    rfl

/-- One descriptor key belongs to one master key and one account. -/
theorem InjectiveDerivation.same (h : InjectiveDerivation descriptors masterKey accountId)
    {o : SealedDescriptor hkdf A} (ho : o ∈ descriptors)
    (hkey : deriveDescriptorKey hkdf o.masterKey o.accountId =
      deriveDescriptorKey hkdf masterKey accountId) :
    o.masterKey.raw = masterKey.raw ∧ o.accountId = accountId := by
  obtain ⟨haccount, hdescriptor⟩ := mem_descriptorQueries hkdf masterKey accountId
  obtain ⟨haccount', hdescriptor'⟩ := mem_descriptorQueries hkdf o.masterKey o.accountId
  have hpair := h (.inr ⟨o, ho, hdescriptor'⟩) (.inl hdescriptor) hkey
  have hkeys := (Prod.mk.inj hpair).1
  rw [deriveAccountKey_key, deriveAccountKey_key] at hkeys
  have hroots := h (.inr ⟨o, ho, haccount'⟩) (.inl haccount) hkeys
  obtain ⟨hraw, hinfo⟩ := Prod.mk.inj hroots
  exact ⟨hraw, accountInfo_injective hinfo⟩

/-- **What is opened was sealed**, byte for byte, for the same account and under the header that is
returned. -/
theorem SealedDescriptor.of_open (hinj : InjectiveDerivation descriptors masterKey accountId)
    (hideal : IdealDescriptors descriptors masterKey accountId) {serialized : Bytes}
    {header : DescriptorHeaderV1} {backupId : BackupId}
    (h : openDescriptorV1 hkdf A masterKey accountId serialized = .ok (header, backupId)) :
    ∃ o ∈ descriptors, o.masterKey.raw = masterKey.raw ∧ o.accountId = accountId ∧
      o.header = header ∧ o.bytes = serialized := by
  obtain ⟨hparse, rfl, plaintext, hdecrypt⟩ := open_eq_ok h
  obtain ⟨hlength, hheader, -⟩ := DescriptorHeaderV1.parse_eq_ok.mp hparse
  obtain ⟨⟨o, ho, hkey, hnonce, haad, hmsg⟩, hct⟩ := hideal _ _ _ _ hdecrypt
  obtain ⟨hraw, haccount⟩ := hinj.same ho hkey
  have hsame : o.header = header := by
    unfold descriptorAad at haad
    have hlengths : (BackupId.derive hkdf o.masterKey o.accountId).val.length =
        (BackupId.derive hkdf masterKey accountId).val.length := by
      rw [(BackupId.derive hkdf o.masterKey o.accountId).property,
        (BackupId.derive hkdf masterKey accountId).property]
    obtain ⟨hfront, -⟩ := List.append_inj' haad hlengths
    ext1
    apply Subtype.ext
    exact List.append_cancel_left hfront
  refine ⟨o, ho, hraw, haccount, hsame, ?_⟩
  obtain ⟨-, hbytes⟩ := seal_eq_ok.mp o.isSealed
  rw [hbytes, hkey, hnonce, haad, hmsg, ← hct, hsame, hheader]
  have hrest : slice headerBytes nonceBytes serialized ++ serialized.drop (headerBytes + nonceBytes) =
      serialized.drop headerBytes := by
    rw [slice, ← List.drop_drop, List.take_append_drop]
  rw [List.append_assoc, hrest, List.take_append_drop]

end authentic

/-- **The codec of descriptors.** What is accepted is what the constructors build; what is sealed is
opened again; and with an ideal AEAD and an injective key derivation nothing is opened but what was
sealed. -/
theorem descriptor_codec (hkdf : Key → Bytes → Key) (A : Aead) :
    (∀ serialized header, DescriptorHeaderV1.parse serialized = .ok header ↔
      serialized.length = 110 ∧ header.bytes.val = serialized.take 26 ∧
        (header = .mnemonic ∨
          ∃ salt, salt.val = slice 10 16 serialized ∧ header = .password salt)) ∧
    (A.Inverts → ∀ masterKey accountId (header : DescriptorHeaderV1) nonce,
      (header = .mnemonic ∨ ∃ salt, header = .password salt) →
      ∃ serialized,
        sealDescriptorV1 hkdf A masterKey accountId header (some nonce) = .ok serialized ∧
        openDescriptorV1 hkdf A masterKey accountId serialized =
          .ok (header, BackupId.derive hkdf masterKey accountId)) ∧
    ∀ (descriptors : Set (SealedDescriptor hkdf A)) masterKey accountId,
      InjectiveDerivation descriptors masterKey accountId →
      IdealDescriptors descriptors masterKey accountId → ∀ serialized,
      (∀ header backupId,
        openDescriptorV1 hkdf A masterKey accountId serialized = .ok (header, backupId) →
        ∃ o ∈ descriptors, o.masterKey.raw = masterKey.raw ∧ o.accountId = accountId ∧
          o.header = header ∧ o.bytes = serialized ∧ serialized.length = 110 ∧
          sealDescriptorV1 hkdf A masterKey accountId header (some o.nonce) = .ok serialized) ∧
      ((∀ o ∈ descriptors, o.bytes ≠ serialized) →
        ∃ e, openDescriptorV1 hkdf A masterKey accountId serialized = .error e) := by
  refine ⟨fun serialized header => ?_, fun hA masterKey accountId header nonce hheader => ?_,
    fun descriptors masterKey accountId hinj hideal serialized => ?_⟩
  · rw [DescriptorHeaderV1.parse_eq_ok]
    refine and_congr_right fun _ => and_congr_right fun hbytes => or_congr_right ?_
    have hsalt : header.salt.val = slice 10 16 serialized := by
      change header.bytes.val.drop 10 = _
      rw [hbytes, slice, List.drop_take]
      rfl
    constructor
    · intro h
      exact ⟨header.salt, hsalt, h⟩
    · rintro ⟨salt, -, rfl⟩
      rfl
  · refine open_seal hA masterKey accountId ?_ nonce
    obtain h | ⟨salt, rfl⟩ := hheader
    · exact .inl h
    · exact .inr rfl
  · have hopened : ∀ header backupId,
        openDescriptorV1 hkdf A masterKey accountId serialized = .ok (header, backupId) →
        ∃ o ∈ descriptors, o.masterKey.raw = masterKey.raw ∧ o.accountId = accountId ∧
          o.header = header ∧ o.bytes = serialized :=
      fun header backupId h => SealedDescriptor.of_open hinj hideal h
    constructor
    · intro header backupId h
      obtain ⟨o, ho, hraw, rfl, rfl, rfl⟩ := hopened header backupId h
      refine ⟨o, ho, hraw, rfl, rfl, rfl, seal_length o.isSealed, ?_⟩
      have hkeys : deriveAccountKey hkdf masterKey o.accountId =
          deriveAccountKey hkdf o.masterKey o.accountId := by
        have hkey : (deriveAccountKey hkdf masterKey o.accountId).key =
            (deriveAccountKey hkdf o.masterKey o.accountId).key := by
          rw [deriveAccountKey_key, deriveAccountKey_key, hraw]
        exact congrArg AccountBackupKey.mk hkey
      have hid : BackupId.derive hkdf masterKey o.accountId =
          BackupId.derive hkdf o.masterKey o.accountId := by rw [BackupId.derive, hkeys, BackupId.derive]
      have hdescriptor : deriveDescriptorKey hkdf masterKey o.accountId =
          deriveDescriptorKey hkdf o.masterKey o.accountId := by
        rw [deriveDescriptorKey, hkeys, deriveDescriptorKey]
      rw [seal_eq_ok, hid, hdescriptor]
      exact seal_eq_ok.mp o.isSealed
    · intro hne
      cases h : openDescriptorV1 hkdf A masterKey accountId serialized with
      | error e => exact ⟨e, rfl⟩
      | ok r =>
        obtain ⟨o, ho, -, -, -, hbytes⟩ := hopened r.1 r.2 h
        exact (hne o ho hbytes).elim

/-! ### One sealed descriptor -/

def aMasterKey : BackupKeyMaterial := .password ⟨idEndingIn 31 7⟩

def aHeader : DescriptorHeaderV1 := .password (idEndingIn 15 17)

/-- The AEAD that has encrypted one descriptor. -/
def oneDescriptorAead : Aead :=
  recordedAead fun nonce aad msg =>
    let backupId := BackupId.derive tellingHkdf aMasterKey (idEndingIn 15 1)
    nonce == List.replicate 24 0 && aad == descriptorAad aHeader backupId &&
      msg == descriptorPlaintext backupId

def oneDescriptor : SealedDescriptor tellingHkdf oneDescriptorAead where
  masterKey := aMasterKey
  accountId := idEndingIn 15 1
  header := aHeader
  nonce := ⟨List.replicate 24 0, rfl⟩
  bytes := aHeader.bytes.val ++ List.replicate 24 0 ++
    descriptorPlaintext (BackupId.derive tellingHkdf aMasterKey (idEndingIn 15 1)) ++
    List.replicate 16 0
  isSealed := by decide +kernel

theorem oneDescriptor_ideal :
    IdealDescriptors {oneDescriptor} aMasterKey (idEndingIn 15 1) := by
  intro nonce aad ct msg h
  obtain ⟨hknown, hct⟩ := recordedAead_authentic _ _ nonce aad ct msg h
  refine ⟨?_, hct⟩
  simp only [Bool.and_eq_true, beq_iff_eq] at hknown
  obtain ⟨⟨rfl, rfl⟩, rfl⟩ := hknown
  exact ⟨oneDescriptor, rfl, rfl, rfl, rfl, rfl⟩

theorem oneDescriptor_injective :
    InjectiveDerivation {oneDescriptor} aMasterKey (idEndingIn 15 1) := by
  have hlist : ∀ pair ∈ [(aMasterKey.raw, accountInfo (idEndingIn 15 1)),
        ((deriveAccountKey tellingHkdf aMasterKey (idEndingIn 15 1)).key, descriptorKeyLabel)],
      ∀ pair' ∈ [(aMasterKey.raw, accountInfo (idEndingIn 15 1)),
        ((deriveAccountKey tellingHkdf aMasterKey (idEndingIn 15 1)).key, descriptorKeyLabel)],
      Function.uncurry tellingHkdf pair = Function.uncurry tellingHkdf pair' → pair = pair' := by
    decide +kernel
  have hqueries : ∀ pair ∈ descriptorQueries tellingHkdf aMasterKey (idEndingIn 15 1),
      pair ∈ [(aMasterKey.raw, accountInfo (idEndingIn 15 1)),
        ((deriveAccountKey tellingHkdf aMasterKey (idEndingIn 15 1)).key, descriptorKeyLabel)] := by
    rintro _ ⟨path, info, ⟨_, rfl, hpath⟩, rfl⟩
    obtain h | h := eq_of_asked hpath <;> rw [h] <;> decide +kernel
  intro pair h pair' h'
  have hsame : ∀ pair, (pair ∈ descriptorQueries tellingHkdf aMasterKey (idEndingIn 15 1) ∨
      ∃ o ∈ ({oneDescriptor} : Set _), pair ∈ descriptorQueries tellingHkdf o.masterKey o.accountId) →
      pair ∈ descriptorQueries tellingHkdf aMasterKey (idEndingIn 15 1) := by
    rintro pair (h | ⟨o, rfl, h⟩)
    · exact h
    · exact h
  exact hlist pair (hqueries pair (hsame pair h)) pair' (hqueries pair' (hsame pair' h'))

/-- A password descriptor is opened again; and the one that was sealed is not opened with another
salt. -/
theorem descriptor_codec_one :
    (∃ serialized,
      sealDescriptorV1 tellingHkdf (recordedAead fun _ _ _ => true) aMasterKey (idEndingIn 15 1)
        aHeader (some ⟨List.replicate 24 0, rfl⟩) = .ok serialized ∧
      openDescriptorV1 tellingHkdf (recordedAead fun _ _ _ => true) aMasterKey (idEndingIn 15 1)
        serialized = .ok (aHeader, BackupId.derive tellingHkdf aMasterKey (idEndingIn 15 1))) ∧
    ∃ e, openDescriptorV1 tellingHkdf oneDescriptorAead aMasterKey (idEndingIn 15 1)
      (oneDescriptor.bytes.set 10 1) = .error e := by
  constructor
  · exact (descriptor_codec tellingHkdf (recordedAead fun _ _ _ => true)).2.1 recordedAead_inverts
      aMasterKey (idEndingIn 15 1) aHeader _ (.inr ⟨_, rfl⟩)
  · have hspec := (descriptor_codec tellingHkdf oneDescriptorAead).2.2 {oneDescriptor} aMasterKey
      (idEndingIn 15 1) oneDescriptor_injective oneDescriptor_ideal (oneDescriptor.bytes.set 10 1)
    refine hspec.2 ?_
    rintro o rfl
    decide +kernel

end KChat.Backup
