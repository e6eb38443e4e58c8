import KChat.Lib.Bytes

/-!
# Signatures

* `SignatureScheme`: signatures as a parameter, with the encodings of verifying keys and signatures.
* `SignatureScheme.Lawful`: what was signed verifies, through the encodings too.
* `copiedSignatures`: signatures that are copies of key and message.
-/

namespace Lib

/-- **A signature scheme**: verifying keys are written as SubjectPublicKeyInfo and read back,
signatures as bytes. -/
structure SignatureScheme where
  SigningKey : Type
  VerifyingKey : Type
  Signature : Type
  verifyingKey : SigningKey → VerifyingKey
  toPublicKeyDer : VerifyingKey → Option Bytes
  fromPublicKeyDer : Bytes → Option VerifyingKey
  sign : SigningKey → Bytes → Signature
  toBytes : Signature → Bytes
  fromBytes : Bytes → Option Signature
  verify : VerifyingKey → Bytes → Signature → Bool

/-- **What was signed verifies**, and what was written is read back. -/
structure SignatureScheme.Lawful (S : SignatureScheme) : Prop where
  der : ∀ key, ∃ der, S.toPublicKeyDer (S.verifyingKey key) = some der ∧
    S.fromPublicKeyDer der = some (S.verifyingKey key)
  bytes : ∀ key message, S.fromBytes (S.toBytes (S.sign key message)) = some (S.sign key message)
  verifies : ∀ key message, S.verify (S.verifyingKey key) message (S.sign key message) = true

/-- A signature is the key and the message. -/
def copiedSignatures : SignatureScheme where
  SigningKey := Bytes
  VerifyingKey := Bytes
  Signature := Bytes
  verifyingKey key := key
  toPublicKeyDer key := some key
  fromPublicKeyDer der := some der
  sign key message := key ++ message
  toBytes signature := signature
  fromBytes bytes := some bytes
  verify key message signature := signature == key ++ message

theorem copiedSignatures_lawful : copiedSignatures.Lawful where
  der key := ⟨key, rfl, rfl⟩
  bytes _ _ := rfl
  verifies key message := by simp [copiedSignatures]

end Lib
