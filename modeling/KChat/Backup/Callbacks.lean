import KChat.Backup.Chunking
import KChat.Backup.Framing
import KChat.Backup.MasterKeys
import KChat.Backup.WriterSteps

/-!
# The callbacks of the bindings

The caller's source and sink are foreign objects whose calls may fail, the question whether the
caller has cancelled included.

* `SourceAdapter`, `SinkAdapter`: the foreign objects as source and sink of the core. A failed
  question counts as a cancellation, and the adapter keeps in mind that it failed.
* `openBackupObjectV1`, `sealBackupObjectV1`: what the bindings export; `releasing`: the stream of
  the source is released at the end.
* **`openObjectV1_unguarded`**, **`sealObjectV1_unguarded`**: the sink adapter never refuses a chunk
  for its length.
* `HonestCallbacks`: callbacks that serve one byte string and take another; `adapter_honest`,
  `openObjectV1_took`, `sealObjectV1_took`.
-/

namespace KChat.Backup

open Lib

variable {σ δ κ μ : Type}

/-! ## Foreign objects and their adapters -/

structure SourceCallbacks (σ : Type) where
  readChunk : ℕ → EStateM BackupErrorCode σ Bytes
  isCancelled : EStateM BackupErrorCode σ Bool

/-- The source of an object that is opened. -/
structure BackupCiphertextSource (σ : Type) extends SourceCallbacks σ where
  releaseStream : EStateM BackupErrorCode σ Unit

abbrev BackupPlaintextSource (σ : Type) : Type := SourceCallbacks σ

structure SinkCallbacks (σ : Type) where
  writeChunk : Bytes → EStateM BackupErrorCode σ Unit

abbrev BackupPlaintextSink (σ : Type) : Type := SinkCallbacks σ

abbrev BackupCiphertextSink (σ : Type) : Type := SinkCallbacks σ

/-- A call of a foreign object, beside the mark that a question has failed. -/
def onCallbacks {α : Type} (x : EStateM BackupErrorCode σ α) :
    EStateM BackupErrorCode (σ × Bool) α :=
  zoom Prod.fst (fun s t => (s, t.2)) x

def SourceAdapter (source : SourceCallbacks σ) : BackupByteSource (σ × Bool) where
  readChunk capacity := do
    let bytes ← mapError (fun _ => .ioError) (onCallbacks (source.readChunk capacity))
    if capacity < bytes.length then
      throw .invalidState
    return bytes
  isCancelled t :=
    match source.isCancelled.run t.1 with
    | .ok cancelled s => (cancelled, (s, t.2))
    | .error _ s => (true, (s, true))

/-- The sink as the core sees it, but for the limit on a chunk. -/
def SinkAdapter.forward (sink : SinkCallbacks σ) : BackupByteSink (σ × Bool) where
  writeChunk bytes := mapError (fun _ => .ioError) (onCallbacks (sink.writeChunk bytes))

/-- The sink that refuses what is longer than a chunk. -/
def BackupByteSink.guarded (sink : BackupByteSink σ) : BackupByteSink σ where
  writeChunk bytes := do
    if maxIoChunkBytesV1 < bytes.length then
      throw .invalidState
    sink.writeChunk bytes

def SinkAdapter (sink : SinkCallbacks σ) : BackupByteSink (σ × Bool) :=
  (SinkAdapter.forward sink).guarded

/-! ## What the bindings export -/

/-- The core is run on adapters; a question that failed is reported as an I/O error. -/
def withAdapters {α : Type} (x : Call (σ × Bool) α) : EStateM BackupErrorCode σ α := fun s =>
  match x.run { foreign := (s, false), delivered := [] } with
  | .ok a w => if w.foreign.2 then .error .ioError w.foreign.1 else .ok a w.foreign.1
  | .error e w => .error (if w.foreign.2 then .ioError else e) w.foreign.1

/-- What happens when the owner of a stream is dropped: the stream is released, and whether that
failed is ignored. -/
def releasing {ε α : Type} (release : EStateM ε σ Unit) (x : EStateM ε σ α) : EStateM ε σ α := do
  let result ← attempt x
  let _ ← attempt release
  ofResult result

def openBackupObjectV1 (P : Primitives μ) (A : StreamAead) (R : RawDecoder δ)
    (key : BackupMasterKey)
    (accountId : String) (chunkId : Bytes) (source : BackupCiphertextSource σ)
    (sink : BackupPlaintextSink σ) : EStateM BackupErrorCode σ Unit :=
  releasing source.releaseStream do
    let backupId ← ofResult (key.deriveBackupId P accountId)
    let context ← ofResult (key.createObjectContext P accountId backupId chunkId)
    withAdapters
      (openObjectV1 A R (SourceAdapter source.toSourceCallbacks) (SinkAdapter sink) context)

structure BackupObjectMetadata where
  ciphertextSize : ℕ
  ciphertextSha256 : Bytes
  formatVersion : ℕ
  deriving DecidableEq, Repr

def BackupObjectMetadata.ofDescriptor (descriptor : BackupObjectDescriptor) :
    BackupObjectMetadata where
  ciphertextSize := descriptor.ciphertextSize
  ciphertextSha256 := descriptor.ciphertextSha256
  formatVersion := descriptor.formatVersion

def sealBackupObjectV1 (A : StreamAead) (C : Compressor κ) (sha256 : Bytes → Bytes)
    (random : Option NoncePrefix) (context : BackupObjectContextV1)
    (source : BackupPlaintextSource σ)
    (sink : BackupCiphertextSink σ) : EStateM BackupErrorCode σ BackupObjectMetadata := do
  let descriptor ← withAdapters
    (sealObjectV1 A C sha256 (SourceAdapter source) (SinkAdapter sink) context random)
  return .ofDescriptor descriptor

section rules

variable {α : Type} {s : σ} {Q : α → σ → Prop} {E : BackupErrorCode → σ → Prop}

@[simp] theorem wp_releasing {release : EStateM BackupErrorCode σ Unit}
    {x : EStateM BackupErrorCode σ α} : wp (releasing release x) s Q E ↔
      wp x s (fun a s' => Q a (final (release.run s')))
        fun e s' => E e (final (release.run s')) := by
  simp only [releasing, wp_bind, wp_attempt]
  have hafter : ∀ (result : Except BackupErrorCode α) s', wp release s'
      (fun _ t => wp (ofResult result) t Q E) (fun _ t => wp (ofResult result) t Q E) ↔
        wp (ofResult result) (final (release.run s')) Q E := by
    intro result s'
    cases hrun : release.run s' with
    | ok a t => exact wp_of_ok hrun
    | error e t => exact wp_of_error hrun
  simp only [hafter]
  exact Iff.rfl

@[simp] theorem wp_withAdapters {x : Call (σ × Bool) α} : wp (withAdapters x) s Q E ↔
    wp x { foreign := (s, false), delivered := [] }
      (fun a w => if w.foreign.2 then E .ioError w.foreign.1 else Q a w.foreign.1)
      fun e w => E (if w.foreign.2 then .ioError else e) w.foreign.1 := by
  have hrun : (withAdapters x).run s = withAdapters x s := rfl
  cases hx : x.run { foreign := (s, false), delivered := [] } with
  | ok a w =>
    rw [wp_of_ok hx, wp, hrun, withAdapters, hx]
    cases hflag : w.foreign.2 <;> simp [hflag]
  | error e w =>
    rw [wp_of_error hx, wp, hrun, withAdapters, hx]

end rules

/-! ## The limit of the sink adapter is never met -/

section guarded

variable {sink : BackupByteSink σ}

theorem guarded_write {chunk : Bytes} (h : chunk.length ≤ maxIoChunkBytesV1) :
    sink.guarded.write chunk = sink.write chunk := by
  have hguard : sink.guarded.writeChunk chunk = sink.writeChunk chunk := by
    simp only [BackupByteSink.guarded]
    rw [if_neg (not_lt.mpr h)]
  rw [BackupByteSink.write, BackupByteSink.write, hguard]

section reader

variable (R : RawDecoder δ) {emit emit' : Bytes → Call σ Unit} (cancelled : Call σ Unit)
  (h : ∀ chunk : Bytes, chunk.length ≤ maxIoChunkBytesV1 → emit chunk = emit' chunk)

include h

namespace BoundedDecoder

/-- The decoder hands over no more than a buffer at once. -/
theorem decodeLoop_congr (d : BoundedDecoder δ) (bytes : Bytes) :
    decodeLoop R emit cancelled d bytes = decodeLoop R emit' cancelled d bytes := by
  induction d, bytes using decodeLoop.induct R with
  | case1 d bytes ih =>
    rw [decodeLoop, decodeLoop]
    congr 1
    funext _
    dsimp only
    split
    · rfl
    rename_i status hrun
    have hlength : status.written.length ≤ maxIoChunkBytesV1 :=
      (R.written_length_le hrun).trans (min_le_left _ _)
    rw [h _ hlength]
    split
    swap
    · rfl
    rename_i htotal
    have hrest : ∀ hidle, decodeLoop R emit cancelled
        { d with decoder := status.decoder, total := d.total + status.written.length }
        (bytes.drop status.bytesRead) = _ := fun hidle => ih status hrun htotal hidle
    by_cases hidle : status.bytesRead = 0 ∧ status.written = []
    · simp only [dif_pos hidle]
    · simp only [dif_neg hidle, hrest hidle]

theorem decode_congr (d : BoundedDecoder δ) (bytes : Bytes) :
    decode R emit cancelled d bytes = decode R emit' cancelled d bytes := by
  rw [decode, decode, decodeLoop_congr R cancelled h]

theorem pushHeader_congr (d : BoundedDecoder δ) (bytes : Bytes) :
    pushHeader R emit cancelled d bytes = pushHeader R emit' cancelled d bytes := by
  induction bytes generalizing d with
  | nil => rfl
  | cons b bytes ih => simp only [pushHeader, decode_congr R cancelled h, ih]

theorem push_congr (d : BoundedDecoder δ) (bytes : Bytes) :
    push R emit cancelled d bytes = push R emit' cancelled d bytes := by
  simp only [push, pushHeader_congr R cancelled h, decode_congr R cancelled h]

end BoundedDecoder

end reader

variable (A : StreamAead) (source : BackupByteSource σ) (sink) (context : BackupObjectContextV1)

/-- **No chunk of plaintext is refused for its length.** -/
theorem openObjectV1_unguarded (R : RawDecoder δ) :
    openObjectV1 A R source sink.guarded context = openObjectV1 A R source sink context := by
  have hpush : ∀ (d : BoundedDecoder δ) bytes,
      d.push R sink.guarded.write (checkCancelled source) bytes =
        d.push R sink.write (checkCancelled source) bytes :=
    BoundedDecoder.push_congr R _ fun _ h => guarded_write h
  have hloop : ∀ rounds input decryptor (decoder : BoundedDecoder δ) length,
      authenticateLoop A R source sink.guarded context rounds input decryptor decoder length =
        authenticateLoop A R source sink context rounds input decryptor decoder length := by
    intro rounds
    induction rounds with
    | zero => exact fun _ _ _ _ => rfl
    | succ rounds ih =>
      intro input decryptor decoder length
      simp only [authenticateLoop, hpush, ih]
  simp only [openObjectV1, authenticateEnvelope, hloop]

/-! ### The writer -/

theorem forM_congr {α ε τ : Type} {f g : α → EStateM ε τ PUnit} {l : List α}
    (h : ∀ a ∈ l, f a = g a) : l.forM f = l.forM g := by
  induction l with
  | nil => rfl
  | cons a l ih =>
    show (f a >>= fun _ => l.forM f) = (g a >>= fun _ => l.forM g)
    rw [h a List.mem_cons_self, ih fun a ha => h a (List.mem_cons_of_mem _ ha)]

theorem writeEnvelopeBytes_unguarded (bytes : Bytes) :
    EnvelopeWriter.writeEnvelopeBytes sink.guarded bytes =
      EnvelopeWriter.writeEnvelopeBytes sink bytes := by
  have hchunks : (chunks maxIoChunkBytesV1 bytes).forM
        (fun chunk => (onWorld (sink.guarded.write chunk) : Method EnvelopeWriter σ Unit)) =
      (chunks maxIoChunkBytesV1 bytes).forM fun chunk => onWorld (sink.write chunk) := by
    apply forM_congr
    intro chunk hchunk
    rw [guarded_write (mem_chunks (by decide) hchunk).2]
  simp only [EnvelopeWriter.writeEnvelopeBytes, hchunks]

theorem writeEncryptedBlock_unguarded (ciphertext : Bytes) :
    EnvelopeWriter.writeEncryptedBlock sink.guarded ciphertext =
      EnvelopeWriter.writeEncryptedBlock sink ciphertext := by
  simp only [EnvelopeWriter.writeEncryptedBlock, writeEnvelopeBytes_unguarded]

theorem drain_unguarded (pending : Bytes) :
    EnvelopeWriter.drain A sink.guarded pending = EnvelopeWriter.drain A sink pending := by
  induction pending using EnvelopeWriter.drain.induct with
  | case1 pending h remainder ih =>
    rw [EnvelopeWriter.drain, EnvelopeWriter.drain, dif_pos h, dif_pos h]
    simp only [writeEncryptedBlock_unguarded]
    rw [ih]
  | case2 pending h =>
    rw [EnvelopeWriter.drain, EnvelopeWriter.drain, dif_neg h, dif_neg h]

theorem write_unguarded : EnvelopeWriter.write A sink.guarded = EnvelopeWriter.write A sink := by
  funext bytes s
  simp only [EnvelopeWriter.write, EnvelopeWriter.writeCompressed, drain_unguarded]

variable (C : Compressor κ) (sha256 : Bytes → Bytes)

theorem writePlaintext_unguarded (bytes : Bytes) :
    BackupObjectWriterV1.writePlaintext A C sink.guarded bytes =
      BackupObjectWriterV1.writePlaintext A C sink bytes := by
  simp only [BackupObjectWriterV1.writePlaintext, write_unguarded]

theorem finish_unguarded : BackupObjectWriterV1.finish A C sha256 sink.guarded =
    BackupObjectWriterV1.finish A C sha256 sink := by
  simp only [BackupObjectWriterV1.finish, write_unguarded, EnvelopeWriter.finish,
    writeEncryptedBlock_unguarded]

theorem new_unguarded (random : Option NoncePrefix) :
    BackupObjectWriterV1.new C sink.guarded context random =
      BackupObjectWriterV1.new C sink context random := by
  simp only [BackupObjectWriterV1.new, EnvelopeWriter.new, writeEnvelopeBytes_unguarded]

/-- **No chunk of an envelope is refused for its length.** -/
theorem sealObjectV1_unguarded (random : Option NoncePrefix) :
    sealObjectV1 A C sha256 source sink.guarded context random =
      sealObjectV1 A C sha256 source sink context random := by
  have hloop : ∀ rounds (writer : BackupObjectWriterV1 κ),
      sealLoop A C sha256 source sink.guarded rounds writer =
        sealLoop A C sha256 source sink rounds writer := by
    intro rounds
    induction rounds with
    | zero => exact fun _ => rfl
    | succ rounds ih =>
      intro writer
      simp only [sealLoop, finish_unguarded, writePlaintext_unguarded, ih]
  simp only [sealObjectV1, new_unguarded, hloop]

end guarded

/-! ## Honest callbacks -/

/-- **Honest callbacks**: `Holds s rest got` says that in `s` the bytes `rest` are left to be read
and the bytes `got` have been taken. Nothing fails, and nothing is cancelled. -/
structure HonestCallbacks (source : SourceCallbacks σ) (sink : SinkCallbacks σ)
    (Holds : σ → Bytes → Bytes → Prop) : Prop where
  isCancelled : ∀ {s rest got}, Holds s rest got →
    ∃ s', source.isCancelled.run s = .ok false s' ∧ Holds s' rest got
  readChunk : ∀ {s rest got} capacity, Holds s rest got →
    ∃ data s' rest', (source.readChunk capacity).run s = .ok data s' ∧ data.length ≤ capacity ∧
      (0 < capacity → data = [] → rest = []) ∧ rest = data ++ rest' ∧ Holds s' rest' got
  writeChunk : ∀ {s rest got} chunk, Holds s rest got →
    ∃ s', (sink.writeChunk chunk).run s = .ok () s' ∧ Holds s' rest (got ++ chunk)
  accepts : ∀ chunk s, ∃ s', (sink.writeChunk chunk).run s = .ok () s'

section honest

variable {source : SourceCallbacks σ} {sink : SinkCallbacks σ} {Holds : σ → Bytes → Bytes → Prop}

theorem run_onCallbacks {α : Type} {x : EStateM BackupErrorCode σ α} {t : σ × Bool} {a : α} {s : σ}
    (h : x.run t.1 = .ok a s) :
    (mapError (fun _ => BackupErrorCode.ioError) (onCallbacks x)).run t =
      .ok a (s, t.2) :=
  run_mapError_ok _ (run_zoom_ok h)

/-- No question has failed, and `rest` is left to be read. -/
def Unread (Holds : σ → Bytes → Bytes → Prop) (t : σ × Bool) (rest : Bytes) : Prop :=
  t.2 = false ∧ ∃ got, Holds t.1 rest got

theorem adapter_read_run (h : HonestCallbacks source sink Holds) {t : σ × Bool} {rest got : Bytes}
    (ht : Holds t.1 rest got) (capacity : ℕ) :
    ∃ data s rest', ((SourceAdapter source).readChunk capacity).run t = .ok data (s, t.2) ∧
      data.length ≤ capacity ∧ (0 < capacity → data = [] → rest = []) ∧ rest = data ++ rest' ∧
      Holds s rest' got := by
  obtain ⟨data, s, rest', hrun, hle, hend, hrest, hs⟩ := h.readChunk capacity ht
  refine ⟨data, s, rest', ?_, hle, hend, hrest, hs⟩
  refine (run_bind_ok (run_onCallbacks hrun)).trans ?_
  rw [if_neg (not_lt.mpr hle)]
  rfl

theorem adapter_isCancelled (h : HonestCallbacks source sink Holds) {t : σ × Bool}
    {rest got : Bytes} (ht : Holds t.1 rest got) :
    ∃ s, (SourceAdapter source).isCancelled t = (false, (s, t.2)) ∧ Holds s rest got := by
  obtain ⟨s, hrun, hs⟩ := h.isCancelled ht
  refine ⟨s, ?_, hs⟩
  simp only [SourceAdapter, hrun]

/-- **The adapters of honest callbacks** are an honest source and a sink that never fails. -/
theorem adapter_honest (h : HonestCallbacks source sink Holds) :
    Honest (SourceAdapter source) (SinkAdapter.forward sink) (Unread Holds) where
  isCancelled := by
    rintro t rest ⟨hflag, got, ht⟩
    obtain ⟨s, hs, hholds⟩ := adapter_isCancelled h ht
    rw [hs]
    exact ⟨hflag, got, hholds⟩
  readChunk := by
    rintro t rest capacity ⟨hflag, got, ht⟩ hc
    obtain ⟨data, s, rest', hrun, hle, hend, hrest, hs⟩ := adapter_read_run h ht capacity
    exact (wp_of_ok hrun).mpr ⟨hle, hend hc, rest', hrest, hflag, got, hs⟩
  writeChunk := by
    rintro t rest chunk ⟨hflag, got, ht⟩
    obtain ⟨s, hrun, hs⟩ := h.writeChunk chunk ht
    exact (wp_of_ok (run_onCallbacks hrun)).mpr ⟨hflag, _, hs⟩
  notCancelled := by
    rintro t rest ⟨-, got, ht⟩
    obtain ⟨s, hs, -⟩ := adapter_isCancelled h ht
    rw [hs]
  reads := by
    rintro t rest capacity ⟨-, got, ht⟩ -
    obtain ⟨data, s, rest', hrun, -⟩ := adapter_read_run h ht capacity
    exact ⟨data, _, hrun⟩

theorem adapter_neverFails (h : HonestCallbacks source sink Holds) :
    NeverFails (SinkAdapter.forward sink) := by
  intro chunk t
  obtain ⟨s, hs⟩ := h.accepts chunk t.1
  exact ⟨_, run_onCallbacks hs⟩

def Taken (Holds : σ → Bytes → Bytes → Prop) (w : World (σ × Bool)) : Prop :=
  w.foreign.2 = false ∧ ∃ rest, Holds w.foreign.1 rest w.bytes

section steps

variable (h : HonestCallbacks source sink Holds)

include h

theorem cancelled_took : Preserves (Taken Holds) (Taken Holds)
    (SourceAdapter source).cancelled := by
  rintro w ⟨hflag, rest, hw⟩
  obtain ⟨s, hs, hholds⟩ := adapter_isCancelled h hw
  show Taken Holds { w with foreign := ((SourceAdapter source).isCancelled w.foreign).2 }
  rw [hs]
  exact ⟨hflag, rest, hholds⟩

theorem read_took (capacity : ℕ) :
    Preserves (Taken Holds) (Taken Holds) ((SourceAdapter source).read capacity) := by
  rintro w ⟨hflag, rest, hw⟩
  obtain ⟨data, s, rest', hrun, -, -, -, hs⟩ := adapter_read_run h hw capacity
  exact (wp_of_ok (run_zoom_ok hrun)).mpr ⟨hflag, rest', hs⟩

theorem write_took (chunk : Bytes) :
    Preserves (Taken Holds) (Taken Holds) ((SinkAdapter.forward sink).write chunk) := by
  rintro w ⟨hflag, rest, hw⟩
  obtain ⟨s, hrun, hs⟩ := h.writeChunk chunk hw
  have hwrite : ((SinkAdapter.forward sink).write chunk).run w =
      .ok () { foreign := (s, w.foreign.2), delivered := w.delivered ++ [chunk] } :=
    (run_bind_ok rfl).trans (run_zoom_ok (run_onCallbacks hrun))
  refine (wp_of_ok hwrite).mpr ⟨hflag, rest, ?_⟩
  rwa [World.bytes, List.flatten_append, List.flatten_singleton]

variable (A : StreamAead) (context : BackupObjectContextV1)

/-- **While an object is opened** the sink takes the chunks that are passed on. -/
theorem openObjectV1_took (R : RawDecoder δ) : Preserves (Taken Holds) (Taken Holds)
    (openObjectV1 A R (SourceAdapter source) (SinkAdapter.forward sink) context) := by
  have hstep : InStep (fun w v => w = v ∧ Taken Holds w) (fun w v => w = v ∧ Taken Holds w)
      (SourceAdapter source) (SinkAdapter.forward sink) (SourceAdapter source)
      (SinkAdapter.forward sink) :=
    inStep_of_reads (fun _ _ h => h) (Sim.of_keeps (cancelled_took h))
      (fun capacity => Sim.of_keeps (read_took h capacity))
      fun chunk => Sim.of_keeps (write_took h chunk)
  exact fun w hw => (hstep.openObjectV1 A R context).keeps hw

/-- **And while one is sealed.** -/
theorem sealObjectV1_took (C : Compressor κ) (sha256 : Bytes → Bytes)
    (random : Option NoncePrefix) :
    Preserves (Taken Holds) (Taken Holds)
      (sealObjectV1 A C sha256 (SourceAdapter source) (SinkAdapter.forward sink) context random) :=
  sealObjectV1_keeps (write_took h) A C sha256 (cancelled_took h) (read_took h) context random

end steps

end honest

end KChat.Backup
