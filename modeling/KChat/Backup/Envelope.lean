import KChat.Backup.Basic

/-!
# The envelope: fixed header and frames

* `serializeHeader`, `parseHeader`; **`parseHeader_eq_ok`**: a header is accepted iff it is the
  serialized header of the nonce prefix it yields.
* `frameOf`: the length field and the ciphertext of one encrypted block.
-/

namespace KChat.Backup

open Lib

/-- `KCBK` -/
def envelopeMagic : Bytes := [0x4b, 0x43, 0x42, 0x4b]

def envelopeVersion : ℕ := 1

def cryptoSuiteId : ℕ := 1

def compressionId : ℕ := 1

def envelopeHeaderBytes : ℕ := 29

def streamNoncePrefixBytes : ℕ := 19

def compressedBlockBytes : ℕ := 64 * 1024

def aeadTagBytes : ℕ := 16

/-- The nonce prefix in a fixed header. -/
def parseHeader (header : Bytes) : Except BackupErrorCode Bytes :=
  if header.take 4 ≠ envelopeMagic ∨ (header.drop 4).take 2 ≠ toBE 2 envelopeVersion ∨
      (header.drop 6).take 2 ≠ toBE 2 cryptoSuiteId ∨
      (header.drop 8).take 2 ≠ toBE 2 compressionId then
    .error .unsupportedFormat
  else .ok (header.drop 10)

def serializeHeader (noncePrefix : Bytes) : Bytes :=
  envelopeMagic ++ toBE 2 envelopeVersion ++ toBE 2 cryptoSuiteId ++ toBE 2 compressionId ++
    noncePrefix

theorem serializeHeader_length (noncePrefix : Bytes) :
    (serializeHeader noncePrefix).length = 10 + noncePrefix.length := by
  simp only [serializeHeader, List.length_append, toBE_length]
  rfl

/-- **A header is accepted iff it is a serialized header.** -/
theorem parseHeader_eq_ok {header noncePrefix : Bytes} :
    parseHeader header = .ok noncePrefix ↔ header = serializeHeader noncePrefix := by
  unfold parseHeader
  constructor
  · intro h
    split_ifs at h with hne
    cases h
    simp only [not_or, ne_eq, not_not] at hne
    obtain ⟨h1, h2, h3, h4⟩ := hne
    rw [serializeHeader, ← h1, ← h2, ← h3, ← h4]
    have e4 := List.take_append_drop 4 header
    have e6 := List.take_append_drop 2 (header.drop 4)
    have e8 := List.take_append_drop 2 (header.drop 6)
    have e10 := List.take_append_drop 2 (header.drop 8)
    simp only [List.drop_drop] at e6 e8 e10
    simp only [List.append_assoc]
    rw [e10, e8, e6, e4]
  · rintro rfl
    rw [if_neg]
    · rfl
    · simp [serializeHeader, envelopeMagic, toBE]

/-- One encrypted block in the envelope: its length, then the ciphertext. -/
def frameOf (ciphertext : Bytes) : Bytes := toBE 4 ciphertext.length ++ ciphertext

theorem frameOf_length (ciphertext : Bytes) : (frameOf ciphertext).length = 4 + ciphertext.length := by
  rw [frameOf, List.length_append, toBE_length]

end KChat.Backup
