import KChat.Backup.MasterKeys
import KChat.Lib.Signature

/-!
# Recovery keys of a mnemonic

* `generateRecoveryMnemonic`, `deriveRecoveryKeyPair`, `signRecoveryMessage`,
  `verifyRecoverySignature`: the recovery keys of the SDK. `searchP256`: the first of 256 candidates
  that is a scalar.
* **`recovery_of_generate`**: the phrase that was generated gives a key pair whose signatures
  verify.
* `PhrasePurpose`: what is derived from the seed of a phrase, for recovery and for backups.
  **`phraseKeys_separated`**: where HKDF has no collisions, only one purpose has a given key.
-/

namespace KChat.Mls

open Lib Backup

inductive RecoveryKeyAlgorithm
  | ed25519
  | p256Ecdsa
  deriving DecidableEq, Repr

inductive MnemonicError
  | invalidWordCount
  | invalidMnemonic
  | randomnessUnavailable
  | derivationFailed
  deriving DecidableEq, Repr

inductive RecoverySignatureError
  | invalidPrivateKey
  | invalidPublicKey
  deriving DecidableEq, Repr

structure RecoveryKeyPair where
  privateKey : Key
  publicKey : Bytes

/-- The functions that recovery keys rest on: every 32 bytes are an Ed25519 seed, and some are a
P-256 scalar. -/
structure RecoveryPrimitives (μ : Type) extends Primitives μ where
  ed25519 : SignatureScheme
  ed25519Key : Key → ed25519.SigningKey
  p256 : SignatureScheme
  p256Key : Key → Option p256.SigningKey

variable {μ : Type} (P : RecoveryPrimitives μ)

def recoveryMasterKeyInfo : Bytes := ascii "KCHAT_RECOVERY_V1_MASTER"

def ed25519KeyInfo : Bytes := ascii "KCHAT_RECOVERY_V1_ED25519"

def p256EcdsaKeyInfo : Bytes := ascii "KCHAT_RECOVERY_V1_P256_ECDSA"

def generateRecoveryMnemonic (random : SystemRandom) (wordCount : ℕ) :
    Except MnemonicError String :=
  match entropyLength wordCount with
  | none => .error .invalidWordCount
  | some entropyLen =>
    match random entropyLen with
    | none => .error .randomnessUnavailable
    | some entropy =>
      match P.bip39.fromEntropy entropy.val with
      | none => .error .derivationFailed
      | some mnemonic => .ok (P.bip39.phrase mnemonic)

/-- A key pair, once the public key is written down. -/
def RecoveryKeyPair.of (S : SignatureScheme) (privateKey : Key) (signer : S.SigningKey) :
    Except MnemonicError RecoveryKeyPair :=
  match S.toPublicKeyDer (S.verifyingKey signer) with
  | none => .error .derivationFailed
  | some der => .ok { privateKey := privateKey, publicKey := der }

/-- The info string of a candidate. -/
def p256Info (counter : ℕ) : Bytes :=
  if counter ≠ 0 then p256EcdsaKeyInfo ++ [UInt8.ofNat counter] else p256EcdsaKeyInfo

/-- The candidate of a counter. -/
def p256Candidate (master : Key) (counter : ℕ) : Key := P.hkdf master.val (p256Info counter)

/-- The first candidate that is a scalar. -/
def searchP256 (master : Key) : List ℕ → Except MnemonicError RecoveryKeyPair
  | [] => .error .derivationFailed
  | counter :: counters =>
    let privateKey := p256Candidate P master counter
    match P.p256Key privateKey with
    | some signer => RecoveryKeyPair.of P.p256 privateKey signer
    | none => searchP256 master counters

/-- The key that recovery keys are derived from. -/
def recoveryMaster (mnemonic : μ) : Key := P.hkdf (P.bip39.toSeed mnemonic) recoveryMasterKeyInfo

def deriveRecoveryKeyPair (mnemonic : String) (algorithm : RecoveryKeyAlgorithm) :
    Except MnemonicError RecoveryKeyPair :=
  match P.bip39.parse mnemonic with
  | none => .error .invalidMnemonic
  | some mnemonic =>
    let master := recoveryMaster P mnemonic
    match algorithm with
    | .ed25519 =>
      let privateKey := P.hkdf master.val ed25519KeyInfo
      RecoveryKeyPair.of P.ed25519 privateKey (P.ed25519Key privateKey)
    | .p256Ecdsa => searchP256 P master (List.range 256)

def signRecoveryMessage (algorithm : RecoveryKeyAlgorithm) (privateKey message : Bytes) :
    Except RecoverySignatureError Bytes :=
  if h : privateKey.length = 32 then
    match algorithm with
    | .ed25519 => .ok (P.ed25519.toBytes (P.ed25519.sign (P.ed25519Key ⟨privateKey, h⟩) message))
    | .p256Ecdsa =>
      match P.p256Key ⟨privateKey, h⟩ with
      | none => .error .invalidPrivateKey
      | some signer => .ok (P.p256.toBytes (P.p256.sign signer message))
  else .error .invalidPrivateKey

/-- Verify under a public key that is written down. -/
def verifyWith (S : SignatureScheme) (publicKey message signature : Bytes) :
    Except RecoverySignatureError Bool :=
  match S.fromPublicKeyDer publicKey with
  | none => .error .invalidPublicKey
  | some verifier =>
    match S.fromBytes signature with
    | none => .ok false
    | some signature => .ok (S.verify verifier message signature)

def verifyRecoverySignature (algorithm : RecoveryKeyAlgorithm)
    (publicKey message signature : Bytes) : Except RecoverySignatureError Bool :=
  match algorithm with
  | .ed25519 => verifyWith P.ed25519 publicKey message signature
  | .p256Ecdsa => verifyWith P.p256 publicKey message signature

/-! ## A phrase and its key pair -/

/-- **A key pair that works**: what is signed with the private key verifies under the public key,
and the public key is always read. -/
structure RecoveryKeyPair.Works (algorithm : RecoveryKeyAlgorithm) (pair : RecoveryKeyPair) :
    Prop where
  verifies : ∀ message, ∃ signature,
    signRecoveryMessage P algorithm pair.privateKey.val message = .ok signature ∧
      verifyRecoverySignature P algorithm pair.publicKey message signature = .ok true
  answers : ∀ message signature, ∃ answer,
    verifyRecoverySignature P algorithm pair.publicKey message signature = .ok answer

section works

variable {P} {S : SignatureScheme}

/-- A pair of a lawful scheme. -/
theorem exists_pair (hS : S.Lawful) (privateKey : Key) (signer : S.SigningKey) :
    ∃ pair, RecoveryKeyPair.of S privateKey signer = .ok pair ∧ pair.privateKey = privateKey ∧
      (∀ message, verifyWith S pair.publicKey message (S.toBytes (S.sign signer message)) =
        .ok true) ∧
      ∀ message signature, ∃ answer,
        verifyWith S pair.publicKey message signature = .ok answer := by
  obtain ⟨der, hder, hback⟩ := hS.der signer
  refine ⟨{ privateKey := privateKey, publicKey := der }, ?_, rfl, fun message => ?_,
    fun message signature => ?_⟩
  · rw [RecoveryKeyPair.of, hder]
  · simp only [verifyWith, hback, hS.bytes, hS.verifies]
  · simp only [verifyWith, hback]
    cases S.fromBytes signature with
    | none => exact ⟨_, rfl⟩
    | some signature => exact ⟨_, rfl⟩

/-- **The search for a scalar** ends at the first candidate that is one. -/
theorem searchP256_spec (hS : P.p256.Lawful) (master : Key) (counters : List ℕ) :
    (∃ before counter after pair, counters = before ++ counter :: after ∧
      (∀ earlier ∈ before, P.p256Key (p256Candidate P master earlier) = none) ∧
      searchP256 P master counters = .ok pair ∧
      pair.privateKey = p256Candidate P master counter ∧ pair.Works P .p256Ecdsa) ∨
    searchP256 P master counters = .error .derivationFailed ∧
      ∀ counter ∈ counters, P.p256Key (p256Candidate P master counter) = none := by
  induction counters with
  | nil => exact .inr ⟨rfl, fun _ h => absurd h List.not_mem_nil⟩
  | cons counter counters ih =>
    cases hkey : P.p256Key (p256Candidate P master counter) with
    | some signer =>
      obtain ⟨pair, hpair, hprivate, hverifies, hanswers⟩ :=
        exists_pair hS (p256Candidate P master counter) signer
      refine .inl ⟨[], counter, counters, pair, rfl, fun _ h => absurd h List.not_mem_nil, ?_,
        hprivate, fun message => ?_, hanswers⟩
      · simp only [searchP256, hkey, hpair]
      · refine ⟨P.p256.toBytes (P.p256.sign signer message), ?_, hverifies message⟩
        simp only [signRecoveryMessage, hprivate, (p256Candidate P master counter).property,
          dif_pos, Subtype.coe_eta, hkey]
    | none =>
      have hsearch : searchP256 P master (counter :: counters) = searchP256 P master counters := by
        simp only [searchP256, hkey]
      rw [hsearch]
      obtain ⟨before, first, after, pair, rfl, hbefore, hrest⟩ | ⟨herror, hnone⟩ := ih
      · refine .inl ⟨counter :: before, first, after, pair, rfl, ?_, hrest⟩
        exact List.forall_mem_cons.mpr ⟨hkey, hbefore⟩
      · exact .inr ⟨herror, List.forall_mem_cons.mpr ⟨hkey, hnone⟩⟩

/-- An Ed25519 pair of any seed. -/
theorem ed25519_works (hS : P.ed25519.Lawful) (privateKey : Key) :
    ∃ pair, RecoveryKeyPair.of P.ed25519 privateKey (P.ed25519Key privateKey) = .ok pair ∧
      pair.privateKey = privateKey ∧ pair.Works P .ed25519 := by
  obtain ⟨pair, hpair, hprivate, hverifies, hanswers⟩ :=
    exists_pair hS privateKey (P.ed25519Key privateKey)
  refine ⟨pair, hpair, hprivate, fun message => ⟨_, ?_, hverifies message⟩, hanswers⟩
  simp only [signRecoveryMessage, hprivate, privateKey.property, dif_pos, Subtype.coe_eta]

/-- The candidates before the first scalar. -/
theorem mem_before {n counter : ℕ} {before after : List ℕ}
    (h : List.range n = before ++ counter :: after) :
    counter < n ∧ ∀ earlier < counter, earlier ∈ before := by
  rw [List.range_eq_range', List.range'_eq_append_iff] at h
  obtain ⟨k, hk, rfl, hafter⟩ := h
  obtain ⟨rfl, hpos, -⟩ := List.range'_eq_cons_iff.mp hafter.symm
  refine ⟨by omega, fun earlier hlt => ?_⟩
  rw [← List.range_eq_range', List.mem_range]
  omega

end works

/-- **A phrase that was generated** is read back, gives an Ed25519 pair, and gives a P-256 pair
unless none of the 256 candidates is a scalar: the private key is the first candidate that is one.
What is signed with a pair verifies under its public key. -/
theorem recovery_of_generate (hB : P.bip39.Lawful) (hE : P.ed25519.Lawful) (hP : P.p256.Lawful)
    {random : SystemRandom} {wordCount : ℕ} {phrase : String}
    (h : generateRecoveryMnemonic P random wordCount = .ok phrase) :
    ∃ mnemonic, P.bip39.parse phrase = some mnemonic ∧
      (∃ pair, deriveRecoveryKeyPair P phrase .ed25519 = .ok pair ∧ pair.Works P .ed25519) ∧
      ((∃ counter < 256, ∃ pair, deriveRecoveryKeyPair P phrase .p256Ecdsa = .ok pair ∧
        pair.privateKey = p256Candidate P (recoveryMaster P mnemonic) counter ∧
        (∀ earlier < counter,
          P.p256Key (p256Candidate P (recoveryMaster P mnemonic) earlier) = none) ∧
        pair.Works P .p256Ecdsa) ∨
      deriveRecoveryKeyPair P phrase .p256Ecdsa = .error .derivationFailed ∧
        ∀ counter < 256,
          P.p256Key (p256Candidate P (recoveryMaster P mnemonic) counter) = none) := by
  unfold generateRecoveryMnemonic at h
  cases hwords : entropyLength wordCount with
  | none =>
    rw [hwords] at h
    cases h
  | some n =>
    rw [hwords] at h
    cases hrandom : random n with
    | none =>
      simp only [hrandom] at h
      cases h
    | some entropy =>
      obtain ⟨mnemonic, hmnemonic, hparse⟩ := hB wordCount n entropy.val hwords entropy.property
      simp only [hrandom, hmnemonic] at h
      cases h
      refine ⟨mnemonic, hparse, ?_, ?_⟩
      · obtain ⟨pair, hpair, -, hworks⟩ :=
          ed25519_works hE (P.hkdf (recoveryMaster P mnemonic).val ed25519KeyInfo)
        refine ⟨pair, ?_, hworks⟩
        simp only [deriveRecoveryKeyPair, hparse, hpair]
      · simp only [deriveRecoveryKeyPair, hparse]
        obtain ⟨before, counter, after, pair, hsplit, hbefore, hpair, hprivate, hworks⟩ |
          ⟨herror, hnone⟩ := searchP256_spec hP (recoveryMaster P mnemonic) (List.range 256)
        · obtain ⟨hlt, hearlier⟩ := mem_before hsplit
          exact .inl ⟨counter, hlt, pair, hpair, hprivate,
            fun earlier hlt => hbefore earlier (hearlier earlier hlt), hworks⟩
        · exact .inr ⟨herror, fun counter hlt => hnone counter (List.mem_range.mpr hlt)⟩

/-! ### The second candidate -/

/-- HKDF that keeps the length and the last byte of the info string, and then the secret. -/
def phrasePrimitives : Primitives Bytes where
  bip39 := spelledMnemonics
  hkdf secret info :=
    ⟨(UInt8.ofNat info.length :: info.getLastD 0 :: (secret ++ List.replicate 32 0)).take 32, by
      simp⟩
  argon2id _ _ _ _ _ := none
  parseUuid _ := none

/-- The candidates whose info string has a counter are scalars. -/
def copiedRecovery : RecoveryPrimitives Bytes where
  toPrimitives := phrasePrimitives
  ed25519 := copiedSignatures
  ed25519Key key := key.val
  p256 := copiedSignatures
  p256Key key := if key.val.head? = some 29 then some key.val else none

/-- A phrase whose first candidate is no scalar. -/
theorem recovery_of_generate_second : ∃ phrase mnemonic pair,
    generateRecoveryMnemonic copiedRecovery (fun n => some ⟨List.replicate n 5, by simp⟩) 12 =
      .ok phrase ∧
    deriveRecoveryKeyPair copiedRecovery phrase .p256Ecdsa = .ok pair ∧
    pair.privateKey = p256Candidate copiedRecovery (recoveryMaster copiedRecovery mnemonic) 1 ∧
    pair.Works copiedRecovery .p256Ecdsa := by
  have hgenerate : generateRecoveryMnemonic copiedRecovery
      (fun n => some ⟨List.replicate n 5, by simp⟩) 12 = .ok _ := rfl
  obtain ⟨mnemonic, hparse, -, hp256⟩ :=
    recovery_of_generate copiedRecovery spelledMnemonics_lawful copiedSignatures_lawful
      copiedSignatures_lawful hgenerate
  obtain ⟨counter, -, pair, hpair, hprivate, hearlier, hworks⟩ | ⟨-, hnone⟩ := hp256
  · refine ⟨_, mnemonic, pair, hgenerate, hpair, ?_, hworks⟩
    have hle : counter ≤ 1 := by
      by_contra hgt
      cases hearlier 1 (by omega)
    have hne : counter ≠ 0 := by
      rintro rfl
      obtain ⟨signature, hsign, -⟩ := hworks.verifies []
      rw [hprivate, signRecoveryMessage, dif_pos (p256Candidate copiedRecovery _ 0).property]
        at hsign
      cases hsign
    rw [hprivate, show counter = 1 by omega]
  · cases hnone 1 (by omega)

/-! ## One phrase for recovery and for backups -/

/-- What is derived from the seed of a phrase. -/
inductive PhrasePurpose
  | recoveryMaster
  | ed25519
  | p256 (counter : ℕ)
  | backupMaster
  | backup (purpose : Purpose)

/-- HKDF from bytes to bytes. -/
def expand (secret info : Bytes) : Bytes := (P.hkdf secret info).val

/-- The master key of the backups. -/
def backupMaster (mnemonic : μ) : BackupKeyMaterial :=
  .mnemonic (MnemonicBackupKey.fromParsedMnemonic P.toPrimitives mnemonic)

namespace PhrasePurpose

def key (mnemonic : μ) : PhrasePurpose → Key
  | .recoveryMaster => Mls.recoveryMaster P mnemonic
  | .ed25519 => P.hkdf (Mls.recoveryMaster P mnemonic).val ed25519KeyInfo
  | .p256 counter => p256Candidate P (Mls.recoveryMaster P mnemonic) counter
  | .backupMaster => (Mls.backupMaster P mnemonic).raw
  | .backup purpose => purpose.key P.deriveHkdf (Mls.backupMaster P mnemonic)

/-- The info strings on the way to a key. -/
def path (mnemonic : μ) : PhrasePurpose → List Bytes
  | .recoveryMaster => [recoveryMasterKeyInfo]
  | .ed25519 => [recoveryMasterKeyInfo, ed25519KeyInfo]
  | .p256 counter => [recoveryMasterKeyInfo, p256Info counter]
  | .backupMaster => [MnemonicBackupKey.masterKeyInfo]
  | .backup purpose =>
    MnemonicBackupKey.masterKeyInfo :: purpose.path P.deriveHkdf (Mls.backupMaster P mnemonic)

end PhrasePurpose

/-- The purposes that concern some candidates, some accounts and some chunks. -/
inductive PhraseConcerns (counters : Set ℕ) (accounts : Set BackupAccountId)
    (chunks : Set BackupChunkId) : PhrasePurpose → Prop
  | recoveryMaster : PhraseConcerns counters accounts chunks .recoveryMaster
  | ed25519 : PhraseConcerns counters accounts chunks .ed25519
  | p256 {counter} (h : counter ∈ counters) :
    PhraseConcerns counters accounts chunks (.p256 counter)
  | backupMaster : PhraseConcerns counters accounts chunks .backupMaster
  | backup {purpose} (h : Concerns accounts chunks purpose) :
    PhraseConcerns counters accounts chunks (.backup purpose)

/-- **HKDF has no collisions** among the pairs that it is asked for when the keys of a phrase are
derived. -/
def PhraseCollisionFree (mnemonic : μ) (counters : Set ℕ) (accounts : Set BackupAccountId)
    (chunks : Set BackupChunkId) : Prop :=
  (Asked (expand P) (P.bip39.toSeed mnemonic)
    (PhrasePurpose.path P mnemonic '' PhraseConcerns counters accounts chunks)).InjOn
      (Function.uncurry (expand P))

section separation

variable {P} {mnemonic : μ}

theorem p256Info_length (counter : ℕ) :
    (p256Info counter).length = 28 ∨ (p256Info counter).length = 29 := by
  unfold p256Info
  split_ifs with h
  · exact .inr rfl
  · exact .inl rfl

theorem p256Info_injOn {counter counter' : ℕ} (h : counter < 256) (h' : counter' < 256)
    (heq : p256Info counter = p256Info counter') : counter = counter' := by
  have hlength := congrArg List.length heq
  unfold p256Info at heq hlength
  by_cases h0 : counter = 0 <;> by_cases h0' : counter' = 0
  · rw [h0, h0']
  · simp [h0, h0'] at hlength
  · simp [h0, h0'] at hlength
  · rw [if_pos h0, if_pos h0'] at heq
    have hbyte := congrArg UInt8.toNat (List.singleton_inj.mp (List.append_cancel_left heq))
    simpa [Nat.mod_eq_of_lt h, Nat.mod_eq_of_lt h'] using hbyte

namespace PhrasePurpose

/-- A key is what its path leads to. -/
theorem key_eq (purpose : PhrasePurpose) : (purpose.key P mnemonic).val =
    derive (expand P) (P.bip39.toSeed mnemonic) (purpose.path P mnemonic) := by
  cases purpose with
  | recoveryMaster => rfl
  | ed25519 => rfl
  | p256 counter => rfl
  | backupMaster => rfl
  | backup purpose =>
    have hval : ∀ (path : List Bytes) (root : Key),
        (derive P.deriveHkdf root path).val = derive (expand P) root.val path := by
      intro path
      induction path with
      | nil => exact fun _ => rfl
      | cons info path ih => exact fun root => ih (P.deriveHkdf root info)
    rw [key, Purpose.key_eq, hval]
    rfl

/-- The length of an info string, and whether it is the one of Ed25519, tell on which level it is
used. -/
def level (info : Bytes) : ℕ :=
  if info.length < 25 then 0
  else if info = ed25519KeyInfo ∨ info.length = 28 ∨ info.length = 29 ∨ info.length = 39 then 1
  else 2

theorem leveled_of_get {path : List Bytes}
    (h : ∀ i info, path[i]? = some info → level info = i) : Leveled level path := by
  rintro before info after rfl
  exact h before.length info (by simp)

theorem leveled_two {first second : Bytes} (h : level first = 0) (h' : level second = 1) :
    Leveled level [first, second] := by
  apply leveled_of_get
  rintro (_ | _ | i) info hinfo
  · cases hinfo
    exact h
  · cases hinfo
    exact h'
  · cases hinfo

theorem leveled_three {first second third : Bytes} (h : level first = 0) (h' : level second = 1)
    (h'' : level third = 2) : Leveled level [first, second, third] := by
  apply leveled_of_get
  rintro (_ | _ | _ | i) info hinfo
  · cases hinfo
    exact h
  · cases hinfo
    exact h'
  · cases hinfo
    exact h''
  · cases hinfo

theorem level_account (accountId : BackupAccountId) : level (Info.account accountId).bytes = 1 := by
  simp [level, Info.bytes]

theorem level_object (version : UInt16) (backupId : BackupId) (chunkId : BackupChunkId) :
    level (Info.object version backupId chunkId).bytes = 2 := by
  have hne : (Info.object version backupId chunkId).bytes ≠ ed25519KeyInfo := by
    intro h
    have hlength := congrArg List.length h
    rw [Info.bytes, objectInfo_length] at hlength
    cases hlength
  simp [level, Info.bytes, show objectInfo _ ≠ ed25519KeyInfo from hne]

theorem level_p256 (counter : ℕ) : level (p256Info counter) = 1 := by
  unfold level
  obtain h | h := p256Info_length counter
  · rw [if_neg (by omega), if_pos (.inr (.inl h))]
  · rw [if_neg (by omega), if_pos (.inr (.inr (.inl h)))]

/-- **Every info string belongs to one level.** -/
theorem leveled (purpose : PhrasePurpose) : Leveled level (purpose.path P mnemonic) := by
  have hmaster : level MnemonicBackupKey.masterKeyInfo = 0 := by decide
  have hone : ∀ info, level info = 0 → Leveled level [info] := by
    intro info h
    apply leveled_of_get
    rintro (_ | i) info hinfo
    · cases hinfo
      exact h
    · cases hinfo
  cases purpose with
  | recoveryMaster => exact hone _ (by decide)
  | ed25519 => exact leveled_two (by decide) (by decide)
  | p256 counter => exact leveled_two (by decide) (level_p256 counter)
  | backupMaster => exact hone _ hmaster
  | backup purpose =>
    cases purpose with
    | account accountId => exact leveled_two hmaster (level_account accountId)
    | backup accountId => exact leveled_three hmaster (level_account accountId) (by decide)
    | descriptor accountId => exact leveled_three hmaster (level_account accountId) (by decide)
    | object accountId chunkId =>
      exact leveled_three hmaster (level_account accountId) (level_object _ _ chunkId)

theorem path_injOn {purpose purpose' : PhrasePurpose} {counters : Set ℕ}
    {accounts : Set BackupAccountId} {chunks : Set BackupChunkId}
    (hcounters : ∀ counter ∈ counters, counter < 256)
    (h : PhraseConcerns counters accounts chunks purpose)
    (h' : PhraseConcerns counters accounts chunks purpose')
    (hpath : purpose.path P mnemonic = purpose'.path P mnemonic) : purpose = purpose' := by
  have hmasters : recoveryMasterKeyInfo ≠ MnemonicBackupKey.masterKeyInfo := by decide
  have hed : ∀ counter, p256Info counter ≠ ed25519KeyInfo := by
    intro counter heq
    have hlength := congrArg List.length heq
    obtain h | h := p256Info_length counter <;> rw [h] at hlength <;> cases hlength
  have hpurpose : ∀ purpose : Purpose,
      purpose.path P.deriveHkdf (Mls.backupMaster P mnemonic) ≠ [] := by
    intro purpose
    cases purpose <;> exact List.cons_ne_nil _ _
  cases h <;> cases h' <;>
    simp only [path, List.cons.injEq, hmasters, hmasters.symm, hed, (hed _).symm, hpurpose,
      (hpurpose _).symm, reduceCtorEq, and_true, and_false, true_and, false_and] at hpath ⊢
  · rename_i counter hc counter' hc'
    exact congrArg _ (p256Info_injOn (hcounters _ hc) (hcounters _ hc') hpath)
  · exact congrArg _ (Purpose.path_injective hpath)

end PhrasePurpose

end separation

/-- **The keys of a phrase are separated**: where HKDF has no collisions, the key for recovery, its
Ed25519 seed, all of its P-256 candidates, the master key of the backups and every key and id
derived from that are different unless they are for the same purpose. -/
theorem phraseKeys_separated {mnemonic : μ} {counters : Set ℕ} {accounts : Set BackupAccountId}
    {chunks : Set BackupChunkId} (hcounters : ∀ counter ∈ counters, counter < 256)
    (hinj : PhraseCollisionFree P mnemonic counters accounts chunks)
    {purpose purpose' : PhrasePurpose}
    (h : PhraseConcerns counters accounts chunks purpose)
    (h' : PhraseConcerns counters accounts chunks purpose')
    (hkey : purpose.key P mnemonic = purpose'.key P mnemonic) : purpose = purpose' := by
  have hderived := congrArg Subtype.val hkey
  rw [PhrasePurpose.key_eq, PhrasePurpose.key_eq] at hderived
  have hlevel : ∀ whole ∈ PhrasePurpose.path P mnemonic '' PhraseConcerns counters accounts chunks,
      Leveled PhrasePurpose.level whole := by
    rintro _ ⟨purpose, -, rfl⟩
    exact purpose.leveled
  have hne : [] ∉ PhrasePurpose.path P mnemonic '' PhraseConcerns counters accounts chunks := by
    rintro ⟨purpose, -, hnil⟩
    cases purpose <;> cases hnil
  exact PhrasePurpose.path_injOn hcounters h h'
    (derive_injOn hinj hlevel hne ⟨purpose, h, rfl⟩ ⟨purpose', h', rfl⟩ hderived)

/-! ### Two candidates, an account and a chunk -/

/-- What the derivation function is asked for along a path. -/
def pairsAlong {κ ι : Type} (kdf : κ → ι → κ) (root : κ) : List ι → List (κ × ι)
  | [] => []
  | info :: path => (root, info) :: pairsAlong kdf (kdf root info) path

theorem mem_pairsAlong {κ ι : Type} {kdf : κ → ι → κ} {root : κ} {path whole : List ι} {info : ι}
    (h : path ++ [info] <+: whole) : (derive kdf root path, info) ∈ pairsAlong kdf root whole := by
  induction whole generalizing path root with
  | nil =>
    have hlength := h.length_le
    simp at hlength
  | cons first whole ih =>
    cases path with
    | nil =>
      obtain rfl : info = first := by simpa using h
      exact List.mem_cons_self
    | cons step path =>
      obtain ⟨rfl, hrest⟩ := List.cons_prefix_cons.mp h
      exact List.mem_cons_of_mem _ (ih hrest)

/-- What is asked for two candidates, an account and a chunk. -/
def askedOfPhrase : List (Bytes × Bytes) :=
  let seed := List.replicate 16 5
  let master := expand copiedRecovery seed recoveryMasterKeyInfo
  let backup := expand copiedRecovery seed MnemonicBackupKey.masterKeyInfo
  let account := expand copiedRecovery backup (accountInfo (idEndingIn 15 1))
  let backupId := BackupId.derive copiedRecovery.deriveHkdf
    (backupMaster copiedRecovery (List.replicate 16 5)) (idEndingIn 15 1)
  [(seed, recoveryMasterKeyInfo), (seed, MnemonicBackupKey.masterKeyInfo),
    (master, ed25519KeyInfo), (master, p256Info 0), (master, p256Info 1),
    (backup, accountInfo (idEndingIn 15 1)), (account, backupIdKeyLabel),
    (account, descriptorKeyLabel),
    (account, objectInfo (canonicalContext 1 backupId (chunkEndingIn 1 firstChunk_ne)))]

theorem collisionFree_phrase : PhraseCollisionFree copiedRecovery (List.replicate 16 5) {0, 1}
    {idEndingIn 15 1} {chunkEndingIn 1 (by decide)} := by
  have hlist : ∀ pair ∈ askedOfPhrase, ∀ pair' ∈ askedOfPhrase,
      Function.uncurry (expand copiedRecovery) pair =
        Function.uncurry (expand copiedRecovery) pair' → pair = pair' := by
    decide +kernel
  have hasked : ∀ pair ∈ Asked (expand copiedRecovery) (List.replicate 16 5)
      (PhrasePurpose.path copiedRecovery (List.replicate 16 5) '' PhraseConcerns {0, 1}
        {idEndingIn 15 1} {chunkEndingIn 1 (by decide)}), pair ∈ askedOfPhrase := by
    rintro _ ⟨path, info, ⟨_, ⟨purpose, hpurpose, rfl⟩, hpath⟩, rfl⟩
    have hpair : (derive (expand copiedRecovery) (List.replicate 16 5) path, info) ∈
        pairsAlong (expand copiedRecovery) (List.replicate 16 5) _ := mem_pairsAlong hpath
    revert hpair
    generalize (derive (expand copiedRecovery) (List.replicate 16 5) path, info) = pair
    revert pair
    cases hpurpose with
    | recoveryMaster => decide +kernel
    | ed25519 => decide +kernel
    | p256 h => obtain rfl | rfl := h <;> decide +kernel
    | backupMaster => decide +kernel
    | backup h =>
      cases h with
      | account ha => obtain rfl := ha; decide +kernel
      | backup ha => obtain rfl := ha; decide +kernel
      | descriptor ha => obtain rfl := ha; decide +kernel
      | object ha hc => obtain rfl := ha; obtain rfl := hc; decide +kernel
  intro pair h pair' h'
  exact hlist pair (hasked pair h) pair' (hasked pair' h')

/-- The second candidate is not the key of the chunk. -/
theorem phraseKeys_separated_second :
    PhrasePurpose.key copiedRecovery (List.replicate 16 5) (.p256 1) ≠
      PhrasePurpose.key copiedRecovery (List.replicate 16 5)
        (.backup (.object (idEndingIn 15 1) (chunkEndingIn 1 (by decide)))) := by
  intro h
  have hsame := phraseKeys_separated copiedRecovery (by rintro counter (rfl | rfl) <;> decide)
    collisionFree_phrase (.p256 (.inr rfl)) (.backup (.object rfl rfl)) h
  cases hsame

end KChat.Mls
