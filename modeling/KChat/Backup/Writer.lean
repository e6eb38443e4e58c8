import KChat.Backup.Envelope
import KChat.Backup.Io
import KChat.Lib.Blocks
import KChat.Lib.Stream
import KChat.Lib.Zstd

/-!
# The object writer

* `EnvelopeWriter`: the compressor's output is cut into blocks, encrypted and framed; the sink gets
  it in bounded chunks while size and hash are kept.
* `BackupObjectWriterV1`: the compressor over an envelope, used until it is finished, aborted or has
  failed.
* `sealObjectV1`: a source is read to its end. The loop has more rounds than the plaintext limit
  lets it use (`sealLoop_rounds`).
-/

namespace KChat.Backup

open Lib

structure BackupObjectDescriptor where
  ciphertextSize : ℕ
  ciphertextSha256 : Bytes
  formatVersion : ℕ
  deriving DecidableEq, Repr

/-- The fields of the envelope writer; `hash` holds what the hash has absorbed. -/
structure EnvelopeWriter where
  encryptor : Option StreamEncryptor
  canonicalContext : Bytes
  pending : Bytes
  compressedBytes : ℕ
  ciphertextBytes : ℕ
  blockCount : ℕ
  hash : Bytes
  failure : Option BackupErrorCode

/-- A method of an object of type `ω` that acts on the caller's objects. -/
abbrev Method (ω σ α : Type) : Type := EStateM BackupErrorCode (Owning ω (World σ)) α

variable {σ κ : Type}

/-! ## The envelope -/

namespace EnvelopeWriter

variable (A : StreamAead) (sha256 : Bytes → Bytes) (sink : BackupByteSink σ)

def writeEnvelopeBytes (bytes : Bytes) : Method EnvelopeWriter σ Unit := do
  let self ← getSelf
  let ciphertextBytes ← ofResult
    (checkedAddLimited self.ciphertextBytes bytes.length maxCiphertextObjectBytesV1)
  modifySelf fun self =>
    { self with ciphertextBytes := ciphertextBytes, hash := self.hash ++ bytes }
  (chunks maxIoChunkBytesV1 bytes).forM fun chunk => onWorld (sink.write chunk)

def writeEncryptedBlock (ciphertext : Bytes) : Method EnvelopeWriter σ Unit := do
  if ciphertext.length < aeadTagBytes ∨ compressedBlockBytes + aeadTagBytes < ciphertext.length then
    throw .invalidState
  let self ← getSelf
  let blockCount ← ofResult (checkedAddLimited self.blockCount 1 maxEncryptedBlocksPerObjectV1)
  modifySelf fun self => { self with blockCount := blockCount }
  if 2 ^ 32 ≤ ciphertext.length then
    throw .invalidState
  writeEnvelopeBytes sink (toBE 4 ciphertext.length)
  writeEnvelopeBytes sink ciphertext

/-- The loop of `writeCompressed`: while a full block is pending it is split off and encrypted. -/
def drain (pending : Bytes) : Method EnvelopeWriter σ Unit :=
  if _h : compressedBlockBytes ≤ pending.length then do
    let block := pending.take compressedBlockBytes
    let remainder := pending.drop compressedBlockBytes
    modifySelf fun self => { self with pending := remainder }
    let self ← getSelf
    let encryptor ← orThrow self.encryptor .invalidState
    let r ← orThrow (encryptor.encryptNext A self.canonicalContext block) .invalidState
    modifySelf fun self => { self with encryptor := some r.2 }
    writeEncryptedBlock sink r.1
    drain remainder
  else pure ()
termination_by pending.length
decreasing_by
  rw [List.length_drop]
  simp only [compressedBlockBytes] at _h ⊢
  omega

def writeCompressed (bytes : Bytes) : Method EnvelopeWriter σ Unit := do
  let self ← getSelf
  let compressedBytes ← ofResult
    (checkedAddLimited self.compressedBytes bytes.length maxCompressedObjectBytesV1)
  modifySelf fun self =>
    { self with compressedBytes := compressedBytes, pending := self.pending ++ bytes }
  let self ← getSelf
  drain A sink self.pending

/-- `write` as the compressor sees it: its result, and the cause of a failure kept aside. -/
def write (bytes : Bytes) (s : Owning EnvelopeWriter (World σ)) :
    Bool × Owning EnvelopeWriter (World σ) :=
  match (writeCompressed A sink bytes).run s with
  | .ok _ s => (true, s)
  | .error e s => (false, { s with self := { s.self with failure := some e } })

def new (context : BackupObjectContextV1) (noncePrefix : NoncePrefix) : Call σ EnvelopeWriter := do
  let writer : EnvelopeWriter :=
    { encryptor := some { key := context.objectKey, nonce := noncePrefix, position := 0 }
      canonicalContext := context.canonicalBytes
      pending := []
      compressedBytes := 0
      ciphertextBytes := 0
      blockCount := 0
      hash := []
      failure := none }
  let r ← withSelf writer (writeEnvelopeBytes sink (serializeHeader noncePrefix))
  return r.2

def finish : Method EnvelopeWriter σ BackupObjectDescriptor := do
  let self ← getSelf
  let encryptor ← orThrow self.encryptor .invalidState
  modifySelf fun self => { self with encryptor := none, pending := [] }
  let ciphertext ← orThrow (encryptor.encryptLast A self.canonicalContext self.pending)
    .invalidState
  writeEncryptedBlock sink ciphertext
  let self ← getSelf
  return { ciphertextSize := self.ciphertextBytes
           ciphertextSha256 := sha256 self.hash
           formatVersion := envelopeVersion }

def takeFailure (self : EnvelopeWriter) : BackupErrorCode := self.failure.getD .ioError

end EnvelopeWriter

/-! ## The object writer -/

structure ActiveWriter (κ : Type) where
  encoder : κ
  envelope : EnvelopeWriter
  plaintextBytes : ℕ

inductive WriterTerminal
  | active | finished | aborted | failed
  deriving DecidableEq, Repr

structure BackupObjectWriterV1 (κ : Type) where
  active : Option (ActiveWriter κ)
  terminal : WriterTerminal

namespace BackupObjectWriterV1

variable (A : StreamAead) (C : Compressor κ) (sha256 : Bytes → Bytes) (sink : BackupByteSink σ)

def level : ℕ := 3

/-- A new writer; `random` is what the system's random generator fills the nonce prefix with. -/
def new (context : BackupObjectContextV1) (random : Option NoncePrefix) :
    Call σ (BackupObjectWriterV1 κ) := do
  let noncePrefix ← orThrow random .ioError
  let envelope ← EnvelopeWriter.new sink context noncePrefix
  let encoder ← orThrow (C.new level) .ioError
  return { active := some { encoder := encoder, envelope := envelope, plaintextBytes := 0 }
           terminal := .active }

def fail {α : Type} (e : BackupErrorCode) : Method (BackupObjectWriterV1 κ) σ α := do
  modifySelf fun _ => { active := none, terminal := .failed }
  throw e

def writePlaintext (bytes : Bytes) : Method (BackupObjectWriterV1 κ) σ Unit := do
  let self ← getSelf
  if self.terminal ≠ .active then
    throw .invalidState
  let active ← orThrow self.active .invalidState
  match checkedAddLimited active.plaintextBytes bytes.length maxPlaintextObjectBytesV1 with
  | .error e => fail e
  | .ok plaintextBytes =>
    let s ← get
    let r := (C.writeAll active.encoder bytes).run (EnvelopeWriter.write A sink)
      ⟨active.envelope, s.world⟩
    onWorld (set r.2.2.world)
    if r.1 then
      modifySelf fun self =>
        { self with active := some { encoder := r.2.1, envelope := r.2.2.self, plaintextBytes } }
    else fail r.2.2.self.takeFailure

def finish : Method (BackupObjectWriterV1 κ) σ BackupObjectDescriptor := do
  let self ← getSelf
  if self.terminal ≠ .active then
    throw .invalidState
  let active ← orThrow self.active .invalidState
  let s ← get
  let r := (C.tryFinish active.encoder).run (EnvelopeWriter.write A sink) ⟨active.envelope, s.world⟩
  onWorld (set r.2.2.world)
  if r.1 then
    match (EnvelopeWriter.finish A sha256 sink).run r.2.2 with
    | .ok descriptor s =>
      onWorld (set s.world)
      modifySelf fun _ => { active := none, terminal := .finished }
      return descriptor
    | .error e s =>
      onWorld (set s.world)
      fail e
  else fail r.2.2.self.takeFailure

def abort : Method (BackupObjectWriterV1 κ) σ Unit := do
  let self ← getSelf
  if self.terminal ≠ .active then
    throw .invalidState
  modifySelf fun _ => { active := none, terminal := .aborted }

end BackupObjectWriterV1

/-! ## Sealing -/

section sealing

variable (A : StreamAead) (C : Compressor κ) (sha256 : Bytes → Bytes)
  (source : BackupByteSource σ) (sink : BackupByteSink σ)

/-- The loop of `sealObjectV1`. A writer that is not handed on is dropped, aborted or not. -/
def sealLoop : ℕ → BackupObjectWriterV1 κ → Call σ BackupObjectDescriptor
  | 0, _ => throw .resourceLimitExceeded
  | rounds + 1, writer => do
    if ← source.cancelled then
      throw .cancelled
    let data ← source.read maxIoChunkBytesV1
    if maxIoChunkBytesV1 < data.length then
      throw .invalidState
    if ← source.cancelled then
      throw .cancelled
    if data = [] then
      return (← withSelf writer (BackupObjectWriterV1.finish A C sha256 sink)).1
    let r ← withSelf writer (BackupObjectWriterV1.writePlaintext A C sink data)
    sealLoop rounds r.2

/-- **Sealing one object**: the source's bytes are compressed, encrypted and framed. -/
def sealObjectV1 (context : BackupObjectContextV1) (random : Option NoncePrefix) :
    Call σ BackupObjectDescriptor := do
  if ← source.cancelled then
    throw .cancelled
  let writer ← BackupObjectWriterV1.new C sink context random
  sealLoop A C sha256 source sink (maxPlaintextObjectBytesV1 + 1) writer

theorem writePlaintext_counted {writer : BackupObjectWriterV1 κ} {active : ActiveWriter κ}
    (hactive : writer.active = some active) (bytes : Bytes) (w : World σ) :
    wp (BackupObjectWriterV1.writePlaintext A C sink bytes) ⟨writer, w⟩
      (fun _ s => ∃ active', s.self.active = some active' ∧
        active'.plaintextBytes = active.plaintextBytes + bytes.length ∧
        active'.plaintextBytes ≤ maxPlaintextObjectBytesV1)
      fun _ _ => True := by
  rw [BackupObjectWriterV1.writePlaintext, wp_bind, wp_getSelf]
  refine wp_ite (fun _ => trivial) fun _ => ?_
  rw [wp_bind]
  refine wp_orThrow (fun active' hactive' => ?_) fun _ => trivial
  obtain rfl : active = active' := Option.some.inj (hactive.symm.trans hactive')
  split
  · trivial
  rename_i total htotal
  rw [wp_bind, wp_get, wp_bind, wp_onWorld, wp_set]
  exact wp_ite (fun _ => ⟨_, rfl, checkedAddLimited_eq_ok htotal⟩) fun _ => trivial

/-- **The bound on the rounds is never met**: every round but the last writes a byte. -/
theorem sealLoop_rounds (more rounds : ℕ) {writer : BackupObjectWriterV1 κ}
    {active : ActiveWriter κ} (hactive : writer.active = some active)
    (hle : active.plaintextBytes ≤ maxPlaintextObjectBytesV1)
    (hlt : maxPlaintextObjectBytesV1 < active.plaintextBytes + rounds) (w : World σ) :
    (sealLoop A C sha256 source sink (rounds + more) writer).run w =
      (sealLoop A C sha256 source sink rounds writer).run w := by
  induction rounds generalizing writer active w with
  | zero => omega
  | succ rounds ih =>
    rw [Nat.add_right_comm, sealLoop, sealLoop]
    refine run_bind_congr (wp_mono (wp_true _ w) (fun _ w₁ _ => ?_) fun _ _ h => h)
    refine run_ite_congr (fun _ => rfl) fun _ => ?_
    refine run_bind_congr (wp_mono (wp_true _ w₁) (fun data w₂ _ => ?_) fun _ _ h => h)
    refine run_ite_congr (fun _ => rfl) fun _ => ?_
    refine run_bind_congr (wp_mono (wp_true _ w₂) (fun _ w₃ _ => ?_) fun _ _ h => h)
    refine run_ite_congr (fun _ => rfl) fun _ => run_ite_congr (fun _ => rfl) fun hne => ?_
    have := List.length_pos_iff.mpr hne
    refine run_bind_congr (wp_withSelf.mpr ?_)
    refine wp_mono (writePlaintext_counted A C sink hactive data w₃) (fun _ s hs => ?_)
      fun _ _ h => h
    obtain ⟨active', hactive', hcount, hmax⟩ := hs
    exact ih hactive' hmax (by omega) s.world

end sealing

end KChat.Backup
