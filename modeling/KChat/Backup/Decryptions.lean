import KChat.Backup.Chunking
import KChat.Backup.Traced

/-!
# The reader with a record of its decryptions

* `Decryption`: one use of the STREAM decryptor, also one that fails.
* `Traced.authenticateLoop`, `Traced.authenticateEnvelope`, `Traced.openObjectV1`: the functions of
  the reader, each decryption recorded beside the state of the caller.
* **`openObjectV1_erases`**: without the record they do what the reader does.
-/

namespace KChat.Backup

open Lib

variable {σ δ ι : Type}

/-- A use of the decryptor: its counter, whether it was the last, the ciphertext of the frame, and
the compressed bytes if it succeeded. -/
structure Decryption where
  position : ℕ
  last : Bool
  ciphertext : Bytes
  msg : Option Bytes

def BackupByteSource.traced (source : BackupByteSource σ) : BackupByteSource (σ × List ι) where
  readChunk capacity := zoom Prod.fst (fun s t => (s, t.2)) (source.readChunk capacity)
  isCancelled t := ((source.isCancelled t.1).1, ((source.isCancelled t.1).2, t.2))

def World.decryptions (w : World (σ × List Decryption)) : List Decryption := w.foreign.2

namespace Traced

def noteDecryption (d : Decryption) : Call (σ × List Decryption) Unit :=
  modify fun w => { w with foreign := (w.foreign.1, w.foreign.2 ++ [d]) }

variable (A : StreamAead) (R : RawDecoder δ) (source : BackupByteSource σ) (sink : BackupByteSink σ)
  (context : BackupObjectContextV1)

def authenticateLoop : ℕ → CheckedSource → StreamDecryptor → BoundedDecoder δ → ℕ →
    Call (σ × List Decryption) (BoundedDecoder δ)
  | 0, _, _, _, _ => throw .resourceLimitExceeded
  | rounds + 1, input, decryptor, decoder, length => do
    let frame ← input.readExact source.traced length
    let next ← frame.2.nextLength source.traced
    if next.1.isSome ∧ length ≠ compressedBlockBytes + aeadTagBytes then
      throw .malformedObject
    match next.1 with
    | some nextLength =>
      noteDecryption
        { position := decryptor.position
          last := false
          ciphertext := frame.1
          msg := (decryptor.decryptNext A context.canonicalBytes frame.1).map Prod.fst }
      let decrypted ← orThrow (decryptor.decryptNext A context.canonicalBytes frame.1)
        .authenticationFailed
      checkCancelled source.traced
      let decoder ← decoder.push R sink.traced.write (checkCancelled source.traced) decrypted.1
      authenticateLoop rounds next.2 decrypted.2 decoder nextLength
    | none =>
      noteDecryption
        { position := decryptor.position
          last := true
          ciphertext := frame.1
          msg := decryptor.decryptLast A context.canonicalBytes frame.1 }
      let decrypted ← orThrow (decryptor.decryptLast A context.canonicalBytes frame.1)
        .authenticationFailed
      checkCancelled source.traced
      decoder.push R sink.traced.write (checkCancelled source.traced) decrypted

def authenticateEnvelope (input : CheckedSource) (decoder : BoundedDecoder δ) :
    Call (σ × List Decryption) (BoundedDecoder δ) := do
  let header ← input.readExact source.traced envelopeHeaderBytes
  let noncePrefix ← ofResult (parseHeader header.1)
  let decryptor : StreamDecryptor :=
    { key := context.objectKey, nonce := noncePrefix, position := 0 }
  let first ← header.2.nextLength source.traced
  let length ← orThrow first.1 .malformedObject
  authenticateLoop A R source sink context maxEncryptedBlocksPerObjectV1 first.2 decryptor decoder
    length

def openObjectV1 : Call (σ × List Decryption) Unit := do
  let input ← CheckedSource.new source.traced
  let decoder ← BoundedDecoder.new R
  let decoder ← authenticateEnvelope A R source sink context input decoder
  checkCancelled source.traced
  ofResult decoder.finish

end Traced

/-! ## The record aside -/

section erases

variable {source : BackupByteSource σ} {sink : BackupByteSink σ}

/-- **Beside a record** the callers are in step. -/
theorem traced_inStep (sink : BackupByteSink σ) (log : List ι) :
    InStep (fun w v => w = recording log v) (fun w v => w = recording log v)
      source.traced sink.traced source sink := by
  apply inStep_of_reads (fun _ _ h => h) _ _ fun chunk => write_carries chunk log
  · rintro _ v rfl
    exact .ok rfl
  · rintro capacity _ v rfl
    change Agree _ _ (source.traced.read capacity (recording log v)) (source.read capacity v)
    simp only [zoom, EStateM.run, BackupByteSource.read, onForeign, BackupByteSource.traced,
      recording]
    cases source.readChunk capacity v.foreign with
    | ok a foreign => exact .ok rfl
    | error e foreign => exact .error rfl

theorem checkCancelled_carries :
    Carries (ι := ι) (checkCancelled source.traced) (checkCancelled source) := fun log =>
  (traced_inStep ⟨fun _ => pure ()⟩ log).checkCancelled

theorem readExact_carries (input : CheckedSource) (n : ℕ) :
    Carries (ι := ι) (input.readExact source.traced n) (input.readExact source n) := fun log =>
  (traced_inStep ⟨fun _ => pure ()⟩ log).readExact input n

theorem nextLength_carries (input : CheckedSource) :
    Carries (ι := ι) (input.nextLength source.traced) (input.nextLength source) := fun log =>
  (traced_inStep ⟨fun _ => pure ()⟩ log).nextLength input

theorem noteDecryption_erases_bind {α : Type} {d : Decryption}
    {x : Unit → Call (σ × List Decryption) α} {y : Call σ α} (h : ErasesCall (x ()) y) :
    ErasesCall (Traced.noteDecryption d >>= x) y := by
  rintro w _ rfl
  exact h ⟨(w.foreign.1, w.foreign.2 ++ [d]), w.delivered⟩ _ rfl

variable (A : StreamAead) (R : RawDecoder δ) (context : BackupObjectContextV1)

theorem push_carries (d : BoundedDecoder δ) (bytes : Bytes) : Carries (ι := ι)
    (d.push R sink.traced.write (checkCancelled source.traced) bytes)
    (d.push R sink.write (checkCancelled source) bytes) := fun log =>
  (traced_inStep sink log).push R d bytes

theorem authenticateLoop_erases (rounds : ℕ) (input : CheckedSource) (decryptor : StreamDecryptor)
    (decoder : BoundedDecoder δ) (length : ℕ) : ErasesCall
      (Traced.authenticateLoop A R source sink context rounds input decryptor decoder length)
      (authenticateLoop A R source sink context rounds input decryptor decoder length) := by
  induction rounds generalizing input decryptor decoder length with
  | zero => exact Sim.throw (fun _ _ h => h) _
  | succ rounds ih =>
    rw [Traced.authenticateLoop, authenticateLoop]
    apply Sim.bind (readExact_carries _ _).erases
    intro frame
    apply Sim.bind (nextLength_carries _).erases
    intro next
    apply Sim.ite (fun _ => Sim.throw (fun _ _ h => h) _)
    intro _
    cases next.1 with
    | some nextLength =>
      apply noteDecryption_erases_bind
      apply Sim.bind (Sim.orThrow (fun _ _ h => h) _ _)
      intro decrypted
      apply Sim.bind checkCancelled_carries.erases
      intro _
      exact Sim.bind (push_carries R _ _).erases fun d => ih _ _ d _
    | none =>
      apply noteDecryption_erases_bind
      apply Sim.bind (Sim.orThrow (fun _ _ h => h) _ _)
      intro decrypted
      exact Sim.bind checkCancelled_carries.erases fun _ => (push_carries R _ _).erases

theorem authenticateEnvelope_erases (input : CheckedSource) (decoder : BoundedDecoder δ) :
    ErasesCall (Traced.authenticateEnvelope A R source sink context input decoder)
      (authenticateEnvelope A R source sink context input decoder) := by
  unfold Traced.authenticateEnvelope authenticateEnvelope
  apply Sim.bind (readExact_carries _ _).erases
  intro header
  apply Sim.bind (Sim.ofResult (fun _ _ h => h) _)
  intro noncePrefix
  apply Sim.bind (nextLength_carries _).erases
  intro first
  apply Sim.bind (Sim.orThrow (fun _ _ h => h) _ _)
  intro length
  exact authenticateLoop_erases A R context _ _ _ _ _

/-- **The record changes nothing of what the reader does.** -/
theorem openObjectV1_erases : ErasesCall (Traced.openObjectV1 A R source sink context)
    (openObjectV1 A R source sink context) := by
  have hnew : ErasesCall (BoundedDecoder.new R : Call (σ × List Decryption) _)
      (BoundedDecoder.new R) := by
    unfold BoundedDecoder.new
    apply Sim.bind (Sim.orThrow (fun _ _ h => h) _ _)
    intro decoder
    exact Sim.bind (Sim.orThrow (fun _ _ h => h) _ _) fun _ => Sim.pure _
  unfold Traced.openObjectV1 openObjectV1
  apply Sim.bind (Sim.bind checkCancelled_carries.erases fun _ => Sim.pure _)
  intro input
  apply Sim.bind hnew
  intro decoder
  apply Sim.bind (authenticateEnvelope_erases A R context _ _)
  intro decoder
  exact Sim.bind checkCancelled_carries.erases fun _ => Sim.ofResult (fun _ _ h => h) _

end erases

end KChat.Backup
