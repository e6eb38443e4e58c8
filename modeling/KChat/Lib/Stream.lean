import KChat.Lib.Bytes

/-!
# STREAM over a nonce-based AEAD, with a 32-bit big-endian counter

An AEAD is a parameter (`StreamAead`): the nonce is a fixed beginning, a block counter and a flag
that marks the last block. `StreamEncryptor` and `StreamDecryptor` are the two stateful objects
that count the blocks.

* `encryptNext`, `encryptLast`, `decryptNext`, `decryptLast`: the counter advances by one on every
  block but the last, and its largest value is kept for the last block.
* `StreamAead.Inverts`: decryption undoes encryption;
  `StreamAead.Authentic`: only what was encrypted decrypts.
* `taggedAead known`: the AEAD that appends a tag of zeros to the messages of `known` and opens no
  others; `taggedAead_inverts`, `taggedAead_authentic`.
-/

namespace Lib

/-- Bytes a tag adds to a ciphertext. -/
def tagBytes : ℕ := 16

/-- The largest counter of a 32-bit STREAM; no block but the last may carry it. -/
def streamCounterMax : ℕ := 2 ^ 32 - 1

/-- **The AEAD under STREAM nonces**: key, nonce beginning, block counter, last-block flag,
associated data, message. -/
structure StreamAead where
  encrypt : Bytes → Bytes → ℕ → Bool → Bytes → Bytes → Option Bytes
  decrypt : Bytes → Bytes → ℕ → Bool → Bytes → Bytes → Option Bytes
  encrypt_length : ∀ {key nonce position last aad msg ct},
    encrypt key nonce position last aad msg = some ct → ct.length = msg.length + tagBytes
  decrypt_length : ∀ {key nonce position last aad ct msg},
    decrypt key nonce position last aad ct = some msg → ct.length = msg.length + tagBytes

namespace StreamAead

/-- Decryption undoes encryption at the same key, nonce and associated data. -/
def Inverts (A : StreamAead) : Prop :=
  ∀ key nonce position last aad msg ct, A.encrypt key nonce position last aad msg = some ct →
    A.decrypt key nonce position last aad ct = some msg

/-- **An ideal AEAD** at one key and associated data: what decrypts was encrypted, and `Sealed`
lists what was encrypted: nonce beginning, counter, flag and message. -/
def Authentic (A : StreamAead) (key aad : Bytes) (Sealed : Bytes → ℕ → Bool → Bytes → Prop) : Prop :=
  ∀ nonce position last ct msg, A.decrypt key nonce position last aad ct = some msg →
    Sealed nonce position last msg

end StreamAead

/-! ## A tag of zeros -/

section tagged

variable (known : Bytes → ℕ → Bool → Bytes → Bool)

/-- The AEAD that knows its messages: `known` says which nonce beginning, counter and flag go with
which message. -/
def taggedAead : StreamAead where
  encrypt _ nonce position last _ msg :=
    if known nonce position last msg then some (msg ++ List.replicate tagBytes 0) else none
  decrypt _ nonce position last _ ct :=
    let msg := ct.take (ct.length - tagBytes)
    if ct = msg ++ List.replicate tagBytes 0 ∧ known nonce position last msg then some msg else none
  encrypt_length h := by
    split_ifs at h
    cases h
    simp
  decrypt_length h := by
    dsimp only at h
    split_ifs at h with hct
    cases h
    rw [hct.1]
    simp

theorem taggedAead_inverts : (taggedAead known).Inverts := by
  intro key nonce position last aad msg ct h
  simp only [taggedAead] at h ⊢
  split_ifs at h with hknown
  cases h
  simp [hknown]

theorem taggedAead_authentic (key aad : Bytes) : (taggedAead known).Authentic key aad
    fun nonce position last msg => known nonce position last msg = true := by
  intro nonce position last ct msg h
  simp only [taggedAead] at h
  split_ifs at h with hct
  cases h
  exact hct.2

end tagged

/-- The encrypting end. -/
structure StreamEncryptor where
  key : Bytes
  nonce : Bytes
  position : ℕ

/-- The decrypting end. -/
structure StreamDecryptor where
  key : Bytes
  nonce : Bytes
  position : ℕ

namespace StreamEncryptor

variable (A : StreamAead) (e : StreamEncryptor)

def encryptNext (aad msg : Bytes) : Option (Bytes × StreamEncryptor) :=
  if e.position = streamCounterMax then none
  else (A.encrypt e.key e.nonce e.position false aad msg).map
    fun ct => (ct, { e with position := e.position + 1 })

def encryptLast (aad msg : Bytes) : Option Bytes :=
  A.encrypt e.key e.nonce e.position true aad msg

variable {A e}

theorem encryptNext_eq_some {aad msg ct : Bytes} {e' : StreamEncryptor}
    (h : e.encryptNext A aad msg = some (ct, e')) :
    A.encrypt e.key e.nonce e.position false aad msg = some ct ∧
      e' = { e with position := e.position + 1 } := by
  unfold encryptNext at h
  split_ifs at h
  obtain ⟨ct', hct, heq⟩ := Option.map_eq_some_iff.mp h
  cases heq
  exact ⟨hct, rfl⟩

end StreamEncryptor

namespace StreamDecryptor

variable (A : StreamAead) (D : StreamDecryptor)

def decryptNext (aad ct : Bytes) : Option (Bytes × StreamDecryptor) :=
  if D.position = streamCounterMax then none
  else (A.decrypt D.key D.nonce D.position false aad ct).map
    fun msg => (msg, { D with position := D.position + 1 })

def decryptLast (aad ct : Bytes) : Option Bytes :=
  A.decrypt D.key D.nonce D.position true aad ct

variable {A D}

theorem decryptNext_eq_some {aad ct msg : Bytes} {D' : StreamDecryptor}
    (h : D.decryptNext A aad ct = some (msg, D')) :
    A.decrypt D.key D.nonce D.position false aad ct = some msg ∧
      D' = { D with position := D.position + 1 } := by
  unfold decryptNext at h
  split_ifs at h
  obtain ⟨msg', hmsg, heq⟩ := Option.map_eq_some_iff.mp h
  cases heq
  exact ⟨hmsg, rfl⟩

/-- Below the largest counter a block decrypts as the AEAD does. -/
theorem decryptNext_of_lt (h : D.position < streamCounterMax) (aad ct : Bytes) :
    D.decryptNext A aad ct = (A.decrypt D.key D.nonce D.position false aad ct).map
      fun msg => (msg, { D with position := D.position + 1 }) := by
  rw [decryptNext, if_neg h.ne]

end StreamDecryptor

end Lib
