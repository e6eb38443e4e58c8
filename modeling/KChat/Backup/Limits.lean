import KChat.Backup.Authentic
import KChat.Backup.Decryptions
import KChat.Backup.Nonces

/-!
# The limits of reader and writer

The reader counts bytes of ciphertext and plaintext, but neither blocks nor compressed bytes.

* `ReadWithin`: what was decrypted so far fits, frame by frame, into the ciphertext limit.
  `length_le`, `compressed_lt`: so there are few blocks and few compressed bytes.
* `authenticateLoop_within`, `openObjectV1_within`: it holds whatever the outcome.
* `Emitted`: the plaintext passed to the sink is what the decoder counts; `push_emitted`.
* `Measured`: the size of the writer's envelope is that of its blocks; `drain_measured`.
* **`limits_agree`**.
-/

namespace KChat.Backup

open Lib

variable {σ δ κ : Type}

def fullFrameBytes : ℕ := 4 + (compressedBlockBytes + aeadTagBytes)

/-- More blocks than this do not fit into the ciphertext limit. -/
def maxBlocksWithin : ℕ := 4095

/-! ## What is read -/

def framedBytes (log : List Decryption) : ℕ := (log.map fun d => 4 + d.ciphertext.length).sum

def decryptedBytes (log : List Decryption) : ℕ := ((log.filterMap Decryption.msg).map List.length).sum

@[simp] theorem framedBytes_nil : framedBytes [] = 0 := rfl

@[simp] theorem framedBytes_append (log log' : List Decryption) :
    framedBytes (log ++ log') = framedBytes log + framedBytes log' := by
  simp [framedBytes]

@[simp] theorem framedBytes_singleton (d : Decryption) :
    framedBytes [d] = 4 + d.ciphertext.length := by
  simp [framedBytes]

/-- Every frame is a full one, and decrypts to that much less than a tag. -/
structure AllFull (log : List Decryption) : Prop where
  full : ∀ d ∈ log, d.ciphertext.length = compressedBlockBytes + aeadTagBytes
  msg : ∀ d ∈ log, ∀ m, d.msg = some m → d.ciphertext.length = m.length + aeadTagBytes
  position : log.map Decryption.position = List.range log.length

/-- **The frames fit**: all but the latest are full, and with the header they are no more than the
ciphertext limit. -/
structure ReadWithin (log : List Decryption) : Prop where
  size : envelopeHeaderBytes + framedBytes log ≤ maxCiphertextObjectBytesV1
  full : ∀ d ∈ log.dropLast, d.ciphertext.length = compressedBlockBytes + aeadTagBytes
  msg : ∀ d ∈ log, ∀ m, d.msg = some m → d.ciphertext.length = m.length + aeadTagBytes
  position : log.map Decryption.position = List.range log.length

section within

variable {log : List Decryption}

theorem framedBytes_of_full
    (h : ∀ d ∈ log, d.ciphertext.length = compressedBlockBytes + aeadTagBytes) :
    framedBytes log = fullFrameBytes * log.length := by
  have hmap : (log.map fun d => 4 + d.ciphertext.length) = log.map fun _ => fullFrameBytes := by
    apply List.map_congr_left
    intro d hd
    rw [h d hd, fullFrameBytes]
  rw [framedBytes, hmap, List.map_const', List.sum_replicate_nat, mul_comm]

theorem AllFull.within (h : AllFull log)
    (hsize : envelopeHeaderBytes + framedBytes log ≤ maxCiphertextObjectBytesV1) :
    ReadWithin log where
  size := hsize
  full d hd := h.full d (List.dropLast_subset log hd)
  msg := h.msg
  position := h.position

theorem AllFull.nil : AllFull [] := ⟨by simp, by simp, rfl⟩

theorem AllFull.append (h : AllFull log) {d : Decryption} (hposition : d.position = log.length)
    (hmsg : ∀ m, d.msg = some m → d.ciphertext.length = m.length + aeadTagBytes)
    (hsize : envelopeHeaderBytes + framedBytes (log ++ [d]) ≤ maxCiphertextObjectBytesV1) :
    ReadWithin (log ++ [d]) where
  size := hsize
  full := by
    rw [List.dropLast_concat]
    exact h.full
  msg e he := by
    rcases List.mem_append.mp he with he | he
    · exact h.msg e he
    · rw [List.mem_singleton.mp he]
      exact hmsg
  position := by
    rw [List.map_append, h.position, List.length_append, List.length_singleton, List.range_succ,
      List.map_singleton, hposition]

theorem ReadWithin.allFull {d : Decryption} (h : ReadWithin (log ++ [d]))
    (hd : d.ciphertext.length = compressedBlockBytes + aeadTagBytes) : AllFull (log ++ [d]) where
  full e he := by
    have hfull := h.full
    rw [List.dropLast_concat] at hfull
    rcases List.mem_append.mp he with he | he
    · exact hfull e he
    · rw [List.mem_singleton.mp he, hd]
  msg := h.msg
  position := h.position

theorem ReadWithin.length_le (h : ReadWithin log) : log.length ≤ maxBlocksWithin := by
  by_cases hnil : log = []
  · simp [hnil]
  have hsize := h.size
  rw [← List.dropLast_append_getLast hnil, framedBytes_append, framedBytes_singleton,
    framedBytes_of_full h.full, List.length_dropLast] at hsize
  simp only [envelopeHeaderBytes, fullFrameBytes, compressedBlockBytes, aeadTagBytes,
    maxCiphertextObjectBytesV1] at hsize
  simp only [maxBlocksWithin]
  omega

theorem decryptedBytes_le
    (h : ∀ d ∈ log, ∀ m, d.msg = some m → d.ciphertext.length = m.length + aeadTagBytes) :
    decryptedBytes log ≤ framedBytes log := by
  induction log with
  | nil => simp [decryptedBytes]
  | cons d log ih =>
    have hrest := ih fun e he => h e (List.mem_cons_of_mem _ he)
    have hcons : framedBytes (d :: log) = 4 + d.ciphertext.length + framedBytes log := by
      simp [framedBytes]
    cases hd : d.msg with
    | none =>
      have : decryptedBytes (d :: log) = decryptedBytes log := by simp [decryptedBytes, hd]
      omega
    | some m =>
      have hlen := h d List.mem_cons_self m hd
      have : decryptedBytes (d :: log) = m.length + decryptedBytes log := by
        simp [decryptedBytes, hd]
      omega

theorem ReadWithin.compressed_lt (h : ReadWithin log) :
    decryptedBytes log < maxCompressedObjectBytesV1 := by
  have hle := decryptedBytes_le h.msg
  have hsize := h.size
  simp only [envelopeHeaderBytes, maxCiphertextObjectBytesV1] at hsize
  simp only [maxCompressedObjectBytesV1]
  omega

theorem ReadWithin.position_lt (h : ReadWithin log) {d : Decryption} (hd : d ∈ log) :
    d.position < maxBlocksWithin := by
  have hmem : d.position ∈ log.map Decryption.position := List.mem_map_of_mem hd
  rw [h.position, List.mem_range] at hmem
  have := h.length_le
  omega

end within

section reader

variable {source : BackupByteSource σ} {sink : BackupByteSink σ} (A : StreamAead)
  (R : RawDecoder δ) (context : BackupObjectContextV1)

/-- **The loop over the frames**; the induction is on the rounds. What has been counted is the
header, the frames decrypted and the length of the next one. -/
theorem authenticateLoop_within (rounds : ℕ) (input : CheckedSource) (decryptor : StreamDecryptor)
    (decoder : BoundedDecoder δ) (length : ℕ) (w : World (σ × List Decryption))
    (hfull : AllFull w.decryptions)
    (hbytes : input.bytes = envelopeHeaderBytes + framedBytes w.decryptions + 4)
    (hle : input.bytes ≤ maxCiphertextObjectBytesV1)
    (hposition : decryptor.position = w.decryptions.length) :
    wp (Traced.authenticateLoop A R source sink context rounds input decryptor decoder length) w
      (fun _ t => ReadWithin t.decryptions) fun _ t => ReadWithin t.decryptions := by
  induction rounds generalizing input decryptor decoder length w with
  | zero => exact hfull.within (by omega)
  | succ rounds ih =>
    have hstart : ReadWithin w.decryptions := hfull.within (by omega)
    rw [Traced.authenticateLoop, wp_bind]
    refine wp_mono (wp_and ((readExact_carries input length).wp_keeps rfl hstart
      fun _ _ h => h) (readExact_counted source.traced input length w)) (fun frame w₁ h₁ => ?_)
      fun _ _ h => h.1
    obtain ⟨hw₁, hlength, hcount₁⟩ := h₁
    rw [wp_bind]
    refine wp_mono (wp_and ((nextLength_carries frame.2).wp_keeps hw₁ hstart fun _ _ h => h)
      (nextLength_counted source.traced frame.2 w₁)) (fun next w₂ h₂ => ?_) fun _ _ h => h.1
    obtain ⟨hw₂, hcount₂⟩ := h₂
    have hlog : w₂.decryptions = w.decryptions := hw₂
    have hbefore : ReadWithin w₂.decryptions := by rwa [hlog]
    refine wp_ite (fun _ => hbefore) fun hshape => ?_
    have hread := hcount₁.2 hle
    -- the frame at hand, decrypted or not
    have hnext : ∀ last msg, (∀ m, msg = some m → frame.1.length = m.length + aeadTagBytes) →
        ReadWithin (w₂.decryptions ++ [⟨decryptor.position, last, frame.1, msg⟩]) := by
      intro last msg hmsg
      rw [hlog]
      apply hfull.append hposition hmsg
      rw [framedBytes_append, framedBytes_singleton, hlength]
      have := hcount₁.1
      omega
    split
    · rename_i n hn
      rw [hn] at hcount₂ hshape
      rw [wp_bind, Traced.noteDecryption, wp_modify, wp_bind]
      have hwithin := hnext false ((decryptor.decryptNext A context.canonicalBytes frame.1).map
        Prod.fst) fun m hm => by
          obtain ⟨dec, hdec, rfl⟩ := Option.map_eq_some_iff.mp hm
          exact A.decrypt_length (StreamDecryptor.decryptNext_eq_some hdec).1
      refine wp_orThrow (fun dec hdec => ?_) fun _ => hwithin
      obtain ⟨-, hdecryptor⟩ := StreamDecryptor.decryptNext_eq_some hdec
      have hlength' : length = compressedBlockBytes + aeadTagBytes := by
        by_contra hne
        exact hshape ⟨rfl, hne⟩
      have hcount := hcount₁.trans (hcount₂ rfl)
      rw [wp_bind]
      refine checkCancelled_carries.wp_keeps rfl hwithin fun _ w₃ h₃ => ?_
      rw [wp_bind]
      refine (push_carries R _ _).wp_keeps h₃ hwithin fun d w₄ h₄ => ?_
      have hw₄ : w₄.decryptions = w₂.decryptions ++ [⟨decryptor.position, false, frame.1,
          (decryptor.decryptNext A context.canonicalBytes frame.1).map Prod.fst⟩] := h₄
      apply ih
      · rw [hw₄]
        exact hwithin.allFull (hlength.trans hlength')
      · rw [hw₄, hcount.1, hbytes, framedBytes_append, framedBytes_singleton, hlength, hlog]
        omega
      · exact hcount.2 hle
      · rw [hw₄, hdecryptor, hposition, hlog, List.length_append, List.length_singleton]
    · rename_i hn
      rw [wp_bind, Traced.noteDecryption, wp_modify, wp_bind]
      have hwithin := hnext true (decryptor.decryptLast A context.canonicalBytes frame.1)
        fun m hm => A.decrypt_length hm
      refine wp_orThrow (fun msg hdec => ?_) fun _ => hwithin
      rw [wp_bind]
      refine checkCancelled_carries.wp_keeps rfl hwithin fun _ w₃ h₃ => ?_
      refine (push_carries R _ _).wp_keeps h₃ hwithin fun d w₄ h₄ => ?_
      have hw₄ : w₄.decryptions = w₂.decryptions ++ [⟨decryptor.position, true, frame.1,
          decryptor.decryptLast A context.canonicalBytes frame.1⟩] := h₄
      rwa [hw₄]

/-- **The reader, whatever its outcome.** -/
theorem openObjectV1_within {w : World (σ × List Decryption)} (hw : w.decryptions = []) :
    wp (Traced.openObjectV1 A R source sink context) w (fun _ t => ReadWithin t.decryptions)
      fun _ t => ReadWithin t.decryptions := by
  have hnil : ReadWithin [] := AllFull.nil.within (by decide)
  have hw' : w.foreign.2 = [] := hw
  rw [Traced.openObjectV1, wp_bind, CheckedSource.new, wp_bind]
  refine checkCancelled_carries.wp_keeps hw' hnil fun _ w₁ h₁ => ?_
  rw [wp_pure, wp_bind]
  have hnew : ReadWithin w₁.decryptions := by rwa [World.decryptions, h₁]
  have hdecoder : wp (BoundedDecoder.new R) w₁ (fun _ w' => w' = w₁) fun _ w' => w' = w₁ := by
    rw [BoundedDecoder.new, wp_bind]
    refine wp_orThrow (fun _ _ => ?_) fun _ => rfl
    rw [wp_bind]
    exact wp_orThrow (fun _ _ => rfl) fun _ => rfl
  refine wp_mono hdecoder (fun decoder w₂ h₂ => ?_) fun _ w₂ h₂ => by rwa [h₂]
  subst h₂
  rw [wp_bind]
  have henvelope : wp (Traced.authenticateEnvelope A R source sink context
      { bytes := 0, eof := false } decoder) w₂ (fun _ t => ReadWithin t.decryptions)
      fun _ t => ReadWithin t.decryptions := by
    rw [Traced.authenticateEnvelope, wp_bind]
    refine wp_mono (wp_and ((readExact_carries _ envelopeHeaderBytes).wp_keeps h₁ hnil
      fun _ _ h => h) (readExact_counted source.traced _ envelopeHeaderBytes w₂))
      (fun header w₃ h₃ => ?_) fun _ _ h => h.1
    obtain ⟨hw₃, -, hcount₃⟩ := h₃
    rw [wp_bind]
    have hheader : ReadWithin w₃.decryptions := by rwa [World.decryptions, hw₃]
    refine wp_ofResult (fun nonce _ => ?_) fun _ _ => hheader
    rw [wp_bind]
    refine wp_mono (wp_and ((nextLength_carries header.2).wp_keeps hw₃ hnil fun _ _ h => h)
      (nextLength_counted source.traced header.2 w₃)) (fun first w₄ h₄ => ?_) fun _ _ h => h.1
    obtain ⟨hw₄, hcount₄⟩ := h₄
    rw [wp_bind]
    have hlog : w₄.decryptions = [] := hw₄
    have hfirst : ReadWithin w₄.decryptions := by rwa [hlog]
    refine wp_orThrow (fun length hlength => ?_) fun _ => hfirst
    have hcount := hcount₃.trans (hcount₄ (by rw [hlength]; rfl))
    apply authenticateLoop_within
    · rw [hlog]
      exact .nil
    · rw [hcount.1, hlog]
      rfl
    · exact hcount.2 (Nat.zero_le _)
    · rw [hlog]
      rfl
  refine wp_mono henvelope (fun decoder w₃ h₃ => ?_) fun _ _ h => h
  rw [wp_bind]
  refine checkCancelled_carries.wp_keeps rfl h₃ fun _ w₄ h₄ => ?_
  have hend : ReadWithin w₄.decryptions := by rwa [World.decryptions, h₄]
  exact wp_ofResult (fun _ _ => hend) fun _ _ => hend

end reader

/-! ## What is emitted -/

/-- The decoder counts what was passed to the sink since there were `start` bytes. -/
structure Emitted (start : ℕ) (d : BoundedDecoder δ) (w : World σ) : Prop where
  limit : d.limit = maxPlaintextObjectBytesV1
  le : d.total ≤ maxPlaintextObjectBytesV1
  bytes : w.bytes.length = start + d.total

def EmittedWithin (start : ℕ) (w : World σ) : Prop :=
  w.bytes.length ≤ start + maxPlaintextObjectBytesV1

section emitted

variable {start : ℕ} {d : BoundedDecoder δ} {w : World σ} (R : RawDecoder δ)
  {emit : Bytes → Call σ Unit} {cancelled : Call σ Unit}

theorem Emitted.within (h : Emitted start d w) : EmittedWithin start w := by
  rw [EmittedWithin, h.bytes]
  have := h.le
  omega

theorem Emitted.of_bytes {d' : BoundedDecoder δ} {w' : World σ} (h : Emitted start d w)
    (hw : w'.bytes = w.bytes) (hlimit : d'.limit = d.limit) (htotal : d'.total = d.total) :
    Emitted start d' w' := by
  constructor
  · rw [hlimit, h.limit]
  · rw [htotal]
    exact h.le
  · rw [hw, h.bytes, htotal]

theorem emitted_invariant (hemit : Emits False emit) (hcancel : Checks False cancelled) :
    BoundedDecoder.Invariant (δ := δ) emit cancelled (Emitted start)
      fun _ => EmittedWithin start where
  fails _ _ _ h := h.within
  asks _ w h := wp_mono (hcancel w) (fun _ _ hw => h.of_bytes hw rfl rfl)
    fun _ _ hw => (h.of_bytes hw.1 rfl rfl).within
  emits d status w h hle _ := by
    have hemitted : ∀ w' : World σ, w'.bytes = w.bytes ++ status.written → Emitted start
        { d with decoder := status.decoder, total := d.total + status.written.length } w' := by
      intro w' hw'
      constructor
      · exact h.limit
      · rw [← h.limit]
        exact hle
      · rw [hw', List.length_append, h.bytes, add_assoc]
    exact wp_mono (hemit _ w) (fun _ w' hw' => hemitted w' hw')
      fun _ w' hw' => (hemitted w' hw'.1).within
  skips _ _ _ h hnil := h.of_bytes rfl rfl (by rw [hnil]; rfl)
  completes _ _ h := h.of_bytes rfl rfl rfl
  takesHeader _ _ _ _ h := h.of_bytes rfl rfl rfl

/-- **One push** keeps the count, and within the limit. -/
theorem push_emitted (hemit : Emits False emit) (hcancel : Checks False cancelled)
    (d : BoundedDecoder δ) (bytes : Bytes) (w : World σ) (h : Emitted start d w) :
    wp (BoundedDecoder.push R emit cancelled d bytes) w (Emitted start)
      fun _ => EmittedWithin start :=
  BoundedDecoder.push_keeps (emitted_invariant hemit hcancel) d bytes w h

end emitted

section opened

variable {source : BackupByteSource σ} {sink : BackupByteSink σ} {start : ℕ} (A : StreamAead)
  (R : RawDecoder δ) (context : BackupObjectContextV1)

theorem Silent.emitted {α : Type} {x : Call σ α} (hx : Silent x) {d : BoundedDecoder δ}
    {w : World σ} (h : Emitted start d w) :
    wp x w (fun _ w' => Emitted start d w') fun _ w' => EmittedWithin start w' :=
  wp_mono (hx w) (fun _ _ hw => h.of_bytes hw rfl rfl) fun _ _ hw => (h.of_bytes hw rfl rfl).within

theorem authenticateLoop_emitted (rounds : ℕ) (input : CheckedSource) (decryptor : StreamDecryptor)
    (decoder : BoundedDecoder δ) (length : ℕ) (w : World σ) (h : Emitted start decoder w) :
    wp (authenticateLoop A R source sink context rounds input decryptor decoder length) w
      (Emitted start) fun _ => EmittedWithin start := by
  have hpush := fun d bytes w (h : Emitted start d w) => push_emitted R (emits_write sink)
    (checks_checkCancelled source) d bytes w h
  induction rounds generalizing input decryptor decoder length w with
  | zero => exact h.within
  | succ rounds ih =>
    rw [authenticateLoop, wp_bind]
    refine wp_mono ((silent_readExact source input length).emitted h) (fun frame w₁ h₁ => ?_)
      fun _ _ h => h
    rw [wp_bind]
    refine wp_mono ((silent_nextLength source frame.2).emitted h₁) (fun next w₂ h₂ => ?_)
      fun _ _ h => h
    refine wp_ite (fun _ => h₂.within) fun _ => ?_
    split
    · rw [wp_bind]
      refine wp_orThrow (fun dec _ => ?_) fun _ => h₂.within
      rw [wp_bind]
      refine wp_mono ((silent_checkCancelled source).emitted h₂) (fun _ w₃ h₃ => ?_) fun _ _ h => h
      rw [wp_bind]
      exact wp_mono (hpush _ _ w₃ h₃) (fun d w₄ h₄ => ih _ _ d _ w₄ h₄) fun _ _ h => h
    · rw [wp_bind]
      refine wp_orThrow (fun dec _ => ?_) fun _ => h₂.within
      rw [wp_bind]
      refine wp_mono ((silent_checkCancelled source).emitted h₂) (fun _ w₃ h₃ => ?_) fun _ _ h => h
      exact hpush _ _ w₃ h₃

/-- **The reader passes on no more than the plaintext limit**, whatever its outcome. -/
theorem openObjectV1_emitted (w : World σ) : wp (openObjectV1 A R source sink context) w
    (fun _ => EmittedWithin w.bytes.length) fun _ => EmittedWithin w.bytes.length := by
  have hfresh : ∀ decoder : δ, Emitted w.bytes.length (BoundedDecoder.fresh decoder) w :=
    fun _ => ⟨rfl, Nat.zero_le _, rfl⟩
  have hw : EmittedWithin w.bytes.length w := Nat.le_add_right _ _
  rw [openObjectV1, wp_bind, CheckedSource.new, wp_bind]
  refine wp_mono (silent_checkCancelled source w) (fun _ w₁ h₁ => ?_) fun _ w₁ h₁ => ?_
  swap
  · rwa [EmittedWithin, h₁]
  have hw₁ : EmittedWithin w.bytes.length w₁ := by rwa [EmittedWithin, h₁]
  rw [wp_pure, wp_bind, BoundedDecoder.new, wp_bind]
  refine wp_orThrow (fun decoder _ => ?_) fun _ => hw₁
  rw [wp_bind]
  refine wp_orThrow (fun decoder _ => ?_) fun _ => hw₁
  have hstart : Emitted w.bytes.length (BoundedDecoder.fresh decoder) w₁ :=
    (hfresh decoder).of_bytes h₁ rfl rfl
  rw [wp_pure, wp_bind, authenticateEnvelope, wp_bind]
  refine wp_mono ((silent_readExact source _ envelopeHeaderBytes).emitted hstart)
    (fun header w₂ h₂ => ?_) fun _ _ h => h
  rw [wp_bind]
  refine wp_ofResult (fun nonce _ => ?_) fun _ _ => h₂.within
  rw [wp_bind]
  refine wp_mono ((silent_nextLength source header.2).emitted h₂) (fun first w₃ h₃ => ?_)
    fun _ _ h => h
  rw [wp_bind]
  refine wp_orThrow (fun length _ => ?_) fun _ => h₃.within
  refine wp_mono (authenticateLoop_emitted A R context _ _ _ _ _ w₃ h₃) (fun decoder w₄ h₄ => ?_)
    fun _ _ h => h
  rw [wp_bind]
  refine wp_mono ((silent_checkCancelled source).emitted h₄) (fun _ w₅ h₅ => ?_) fun _ _ h => h
  exact wp_ofResult (fun _ _ => h₅.within) fun _ _ => h₅.within

end opened

/-! ## What is written -/

section writer

variable {A : StreamAead} {C : Compressor κ} {sha256 : Bytes → Bytes} {sink : BackupByteSink σ}
  {delivered : List Bytes}

def FewBlocks (w : World (σ × List Encryption)) : Prop :=
  ∀ e ∈ w.encryptions, e.blockCount < maxBlocksWithin

/-- **The size of an envelope is that of its blocks**, within the ciphertext limit. -/
structure Measured (delivered : List Bytes)
    (s : Owning EnvelopeWriter (World (σ × List Encryption))) : Prop
    extends Kept (fun _ => True) delivered s where
  blocks : s.self.ciphertextBytes = envelopeHeaderBytes + fullFrameBytes * s.self.blockCount
  few : FewBlocks s.world

/-- The limit on the ciphertext is the one that is met first. -/
theorem Measured.blockCount_lt {s : Owning EnvelopeWriter (World (σ × List Encryption))}
    (h : Measured delivered s) : s.self.blockCount < maxBlocksWithin := by
  have hle := h.le
  rw [h.blocks] at hle
  simp only [envelopeHeaderBytes, fullFrameBytes, compressedBlockBytes, aeadTagBytes,
    maxCiphertextObjectBytesV1] at hle
  simp only [maxBlocksWithin]
  omega

theorem FewBlocks.append {w : World (σ × List Encryption)} (h : FewBlocks w) {e : Encryption}
    (he : e.blockCount < maxBlocksWithin) {w' : World (σ × List Encryption)}
    (hw' : w'.encryptions = w.encryptions ++ [e]) : FewBlocks w' := by
  intro e' he'
  rw [hw'] at he'
  rcases List.mem_append.mp he' with he' | he'
  · exact h e' he'
  · rwa [List.mem_singleton.mp he']

theorem FewBlocks.of_eq {w w' : World (σ × List Encryption)} (h : FewBlocks w)
    (hw' : w'.encryptions = w.encryptions) : FewBlocks w' := by
  rwa [FewBlocks, hw']

theorem harmless_true : Harmless (fun _ => True) (sink.traced (ι := Encryption)) := by
  intro chunk s _
  exact wp_mono (wp_true _ s) (fun _ _ h => h) fun _ _ h => h

/-- **The loop over the pending bytes** adds full frames. -/
theorem drain_measured (pending : Bytes) {s : Owning EnvelopeWriter (World (σ × List Encryption))}
    (h : Measured delivered s) : wp (Traced.drain A sink pending) s
      (fun _ => Measured delivered) fun _ t => FewBlocks t.world := by
  have hB : 0 < compressedBlockBytes := by decide
  induction pending using block_induction hB generalizing s with
  | short pending hlt =>
    rw [Traced.drain, dif_neg (by omega)]
    exact h
  | step b rest hb ih =>
    rw [Traced.drain, dif_pos (by rw [List.length_append]; omega)]
    simp only [List.take_left' hb, List.drop_left' hb, wp_bind, wp_modifySelf, wp_getSelf]
    refine wp_orThrow (fun encryptor _ => ?_) fun _ => h.few
    refine wp_orThrow (fun r hr => ?_) fun _ => h.few
    have hct : r.1.length = compressedBlockBytes + aeadTagBytes := by
      rw [A.encrypt_length (StreamEncryptor.encryptNext_eq_some hr).1, hb]
      rfl
    rw [Traced.note, wp_onWorld, wp_modify]
    refine wp_mono (wp_and (writeEncryptedBlock_unused r.1 _) (writeEncryptedBlock_kept
      harmless_true (by exact ⟨h.chunks, h.size, h.le, trivial⟩) r.1)) (fun _ t ht => ih ?_)
      fun _ t ht => h.few.append h.blockCount_lt ht.1.2
    obtain ⟨hunused, hkept, hself⟩ := ht
    refine ⟨hkept, ?_, h.few.append h.blockCount_lt hunused.2⟩
    rw [hself, frameOf_length, hct]
    dsimp only
    rw [h.blocks, fullFrameBytes]
    ring

theorem write_measured (bytes : Bytes) (s : Owning EnvelopeWriter (World (σ × List Encryption)))
    (h : Measured delivered s) : if (Traced.write A sink bytes s).1 then
      Measured delivered (Traced.write A sink bytes s).2
    else FewBlocks (Traced.write A sink bytes s).2.world := by
  have hspec : wp (Traced.writeCompressed A sink bytes) s (fun _ => Measured delivered)
      fun _ t => FewBlocks t.world := by
    simp only [Traced.writeCompressed, wp_bind, wp_getSelf, wp_modifySelf]
    apply wp_ofResult
    · intro total _
      exact drain_measured _ ⟨⟨h.chunks, h.size, h.le, trivial⟩, h.blocks, h.few⟩
    · exact fun _ _ => h.few
  unfold Traced.write
  cases hrun : (Traced.writeCompressed A sink bytes).run s with
  | ok u t => exact (wp_of_ok hrun).mp hspec
  | error e t => exact (wp_of_error hrun).mp hspec

variable (A sha256 sink) in
theorem finishEnvelope_few {s : Owning EnvelopeWriter (World (σ × List Encryption))}
    (h : Measured delivered s) : wp (Traced.finishEnvelope A sha256 sink) s
      (fun _ t => FewBlocks t.world) fun _ t => FewBlocks t.world := by
  simp only [Traced.finishEnvelope, wp_bind, wp_getSelf, wp_modifySelf, wp_pure]
  refine wp_orThrow (fun encryptor _ => ?_) fun _ => h.few
  refine wp_orThrow (fun ct _ => ?_) fun _ => h.few
  rw [Traced.note, wp_onWorld, wp_modify]
  exact wp_mono (writeEncryptedBlock_unused ct _)
    (fun _ t ht => h.few.append h.blockCount_lt ht.2)
    fun _ t ht => h.few.append h.blockCount_lt ht.2

/-- **The writer's encryptions**, and its envelope while it is active. -/
structure Bounding (s : Owning (BackupObjectWriterV1 κ) (World (σ × List Encryption))) : Prop where
  few : FewBlocks s.world
  measured : ∀ active, s.self.active = some active →
    ∃ delivered, Measured delivered ⟨active.envelope, s.world⟩

theorem bounding_over {terminal : WriterTerminal} {w : World (σ × List Encryption)}
    (h : FewBlocks w) :
    Bounding ⟨({ active := none, terminal := terminal } : BackupObjectWriterV1 κ), w⟩ :=
  ⟨h, fun _ h => by cases h⟩

theorem writePlaintext_bounding (hC : C.StopsAtFailure) (bytes : Bytes)
    {s : Owning (BackupObjectWriterV1 κ) (World (σ × List Encryption))} (h : Bounding s) :
    wp (Traced.writePlaintext A C sink bytes) s (fun _ => Bounding) fun _ => Bounding := by
  rw [Traced.writePlaintext, wp_bind, wp_getSelf]
  refine wp_ite (fun _ => h) fun _ => ?_
  rw [wp_bind]
  refine wp_orThrow (fun active hactive => ?_) fun _ => h
  split
  · exact bounding_over h.few
  obtain ⟨delivered, hmeasured⟩ := h.measured active hactive
  have hkeeps := Drive.run_keeps (f := Traced.write A sink)
    (fun s (h : Measured delivered s) => h.few) (fun slice s hs => write_measured slice s hs)
    (hC.1 active.encoder bytes) (s := ⟨active.envelope, s.world⟩) hmeasured
  rw [wp_bind, wp_get, wp_bind, wp_onWorld, wp_set]
  refine wp_ite (fun hok => ?_) fun hok => ?_
  · rw [if_pos hok] at hkeeps
    refine ⟨hkeeps.few, ?_⟩
    rintro _ ⟨⟩
    exact ⟨delivered, hkeeps⟩
  · rw [if_neg hok] at hkeeps
    exact bounding_over hkeeps

theorem finish_bounding (hC : C.StopsAtFailure)
    {s : Owning (BackupObjectWriterV1 κ) (World (σ × List Encryption))} (h : Bounding s) :
    wp (Traced.finish A C sha256 sink) s (fun _ => Bounding) fun _ => Bounding := by
  rw [Traced.finish, wp_bind, wp_getSelf]
  refine wp_ite (fun _ => h) fun _ => ?_
  rw [wp_bind]
  refine wp_orThrow (fun active hactive => ?_) fun _ => h
  obtain ⟨delivered, hmeasured⟩ := h.measured active hactive
  have hkeeps := Drive.run_keeps (f := Traced.write A sink)
    (fun s (h : Measured delivered s) => h.few) (fun slice s hs => write_measured slice s hs)
    (hC.2 active.encoder) (s := ⟨active.envelope, s.world⟩) hmeasured
  rw [wp_bind, wp_get, wp_bind, wp_onWorld, wp_set]
  refine wp_ite (fun hok => ?_) fun hok => ?_
  · rw [if_pos hok] at hkeeps
    have hlast := finishEnvelope_few A sha256 sink hkeeps
    split
    · rename_i descriptor t hrun
      exact bounding_over ((wp_of_ok hrun).mp hlast)
    · rename_i e t hrun
      exact bounding_over ((wp_of_error hrun).mp hlast)
  · rw [if_neg hok] at hkeeps
    exact bounding_over hkeeps

variable (A sha256) in
theorem callAll_bounding (hC : C.StopsAtFailure) (calls : List WriterCall)
    {s : Owning (BackupObjectWriterV1 κ) (World (σ × List Encryption))} (h : Bounding s) :
    wp (Traced.callAll A C sha256 sink calls) s (fun _ => Bounding) fun _ _ => False := by
  have hcall : ∀ next {s}, Bounding s → wp (Traced.call A C sha256 sink next) s
      (fun _ => Bounding) fun _ => Bounding := by
    intro next s h
    cases next with
    | writePlaintext bytes =>
      rw [Traced.call, wp_bind]
      exact writePlaintext_bounding hC bytes h
    | finish =>
      rw [Traced.call, map_eq_pure_bind, wp_bind]
      exact finish_bounding hC h
    | abort =>
      rw [Traced.call, wp_bind, BackupObjectWriterV1.abort, wp_bind, wp_getSelf]
      exact wp_ite (fun _ => h) fun _ => bounding_over h.few
  induction calls generalizing s with
  | nil => exact h
  | cons next calls ih =>
    rw [Traced.callAll, wp_bind, wp_attempt]
    refine wp_mono (hcall next h) (fun r s' hs' => ?_) fun e s' hs' => ?_
    · rw [wp_bind]
      exact wp_mono (ih hs') (fun _ _ h => h) fun _ _ h => h
    · rw [wp_bind]
      exact wp_mono (ih hs') (fun _ _ h => h) fun _ _ h => h

theorem new_bounding {context : BackupObjectContextV1} {random : Option NoncePrefix}
    {w : World (σ × List Encryption)} (h : w.encryptions = []) :
    wp (BackupObjectWriterV1.new C sink.traced context random) w
      (fun writer w' => Bounding ⟨writer, w'⟩) fun _ _ => True := by
  rw [BackupObjectWriterV1.new, wp_bind]
  refine wp_orThrow (fun noncePrefix hrandom => ?_) fun _ => trivial
  rw [wp_bind]
  simp only [EnvelopeWriter.new, wp_bind, wp_withSelf, wp_pure]
  have hstart : ∀ self : EnvelopeWriter, self.hash = [] → self.ciphertextBytes = 0 →
      Kept (fun _ => True) w.delivered ⟨self, w⟩ := by
    intro self hhash hsize
    refine ⟨⟨[], by simp, hhash.symm, by simp⟩, ?_, ?_, trivial⟩
    · rw [hsize, hhash]
      rfl
    · rw [hsize]
      exact Nat.zero_le _
  refine wp_mono (wp_and (writeEnvelopeBytes_unused _ _) (writeEnvelopeBytes_kept harmless_true
    (hstart _ rfl rfl) _)) (fun _ t ht => ?_) fun _ _ _ => trivial
  obtain ⟨hunused, hkept, hself⟩ := ht
  refine wp_orThrow (fun encoder _ => ?_) fun _ => trivial
  have hnone : t.world.encryptions = [] := hunused.2.trans h
  have hfew : FewBlocks t.world := by
    rw [FewBlocks, hnone]
    simp
  refine ⟨hfew, ?_⟩
  rintro _ ⟨⟩
  refine ⟨w.delivered, hkept, ?_, hfew⟩
  rw [hself]
  dsimp only
  rw [serializeHeader_length, noncePrefix.2]
  rfl

end writer

/-- **Reader and writer agree on the limits.** However the reader ends, it has decrypted 4095 frames
at most and less than the limit of compressed bytes, its counter is far from overflowing, and
ciphertext and plaintext are within theirs; the record changes nothing. However a writer is used,
its check of the block count never fails: 4095 full blocks exceed the limit on the ciphertext. -/
theorem limits_agree (A : StreamAead) (R : RawDecoder δ) (context : BackupObjectContextV1)
    (source : BackupByteSource σ) (sink : BackupByteSink σ) (w : World (σ × List Decryption))
    (hw : w.decryptions = []) (C : Compressor κ) (hC : C.StopsAtFailure) (sha256 : Bytes → Bytes)
    (random : Option NoncePrefix) (v v' : World (σ × List Encryption)) (hv : v.encryptions = [])
    (writer : BackupObjectWriterV1 κ)
    (hnew : (BackupObjectWriterV1.new C sink.traced context random).run v = .ok writer v')
    (calls : List WriterCall) :
    (let r := (Traced.openObjectV1 A R source sink context).run w
      let r' := (openObjectV1 A R source sink context).run (eraseWorld w)
      outcome r = outcome r' ∧ eraseWorld (final r) = final r' ∧
      (final r).decryptions.length ≤ 4095 ∧
      decryptedBytes (final r).decryptions < maxCompressedObjectBytesV1 ∧
      (∀ d ∈ (final r).decryptions, d.position < streamCounterMax) ∧
      (final r).decryptions.length ≤ maxEncryptedBlocksPerObjectV1 ∧
      envelopeHeaderBytes + framedBytes (final r).decryptions ≤ maxCiphertextObjectBytesV1 ∧
      (final r).bytes.length ≤ w.bytes.length + maxPlaintextObjectBytesV1) ∧
    (∃ results s, (Traced.callAll A C sha256 sink calls).run ⟨writer, v'⟩ = .ok results s ∧
      ∀ e ∈ s.world.encryptions, e.blockCount < 4095 ∧
        checkedAddLimited e.blockCount 1 maxEncryptedBlocksPerObjectV1 = .ok (e.blockCount + 1)) ∧
    maxCiphertextObjectBytesV1 < envelopeHeaderBytes + fullFrameBytes * 4095 := by
  refine ⟨?_, ?_, by decide⟩
  · have herases : Agree _ _ ((Traced.openObjectV1 A R source sink context).run w)
        ((openObjectV1 A R source sink context).run (eraseWorld w)) :=
      openObjectV1_erases A R context w _ rfl
    have hwithin : ReadWithin (final ((Traced.openObjectV1 A R source sink context).run
        w)).decryptions := final_of_wp (openObjectV1_within A R context hw)
    have hend := herases.final_rel fun _ _ h => h
    have hemitted : EmittedWithin w.bytes.length
        (final ((openObjectV1 A R source sink context).run (eraseWorld w))) :=
      final_of_wp (openObjectV1_emitted A R context (eraseWorld w))
    have hblocks := hwithin.length_le
    refine ⟨herases.outcome_eq, hend, hblocks, hwithin.compressed_lt, fun d hd => ?_, ?_,
      hwithin.size, ?_⟩
    · have := hwithin.position_lt hd
      simp only [maxBlocksWithin] at this
      simp only [streamCounterMax]
      omega
    · simp only [maxBlocksWithin] at hblocks
      simp only [maxEncryptedBlocksPerObjectV1]
      omega
    · rw [← hend] at hemitted
      exact hemitted
  · have hbounding := (wp_of_ok hnew).mp (new_bounding hv)
    obtain ⟨results, s, hrun, hs⟩ :=
      exists_run_of_wp (callAll_bounding A sha256 hC calls hbounding)
    refine ⟨results, s, hrun, fun e he => ?_⟩
    have hfew := hs.few e he
    refine ⟨hfew, checkedAddLimited_of_le ?_ (by decide)⟩
    simp only [maxBlocksWithin] at hfew
    simp only [maxEncryptedBlocksPerObjectV1]
    omega

/-- The reader is given the object of a stored frame, byte by byte, and the writer writes three
bytes and is finished. -/
theorem limits_agree_oneBlock :
    let w : World (Bytes × List Decryption) :=
      { foreign := (oneBlockObject.bytes, []), delivered := [] }
    let v : World (Bytes × List Encryption) := { foreign := ([], []), delivered := [] }
    let r := (Traced.openObjectV1 oneBlockAead storedDecoder (memorySource 1) memorySink default).run w
    let r' := (openObjectV1 oneBlockAead storedDecoder (memorySource 1) memorySink default).run
      (eraseWorld w)
    (outcome r = outcome r' ∧ eraseWorld (final r) = final r' ∧
      (final r).decryptions.length ≤ 4095 ∧
      decryptedBytes (final r).decryptions < maxCompressedObjectBytesV1 ∧
      (∀ d ∈ (final r).decryptions, d.position < streamCounterMax) ∧
      (final r).decryptions.length ≤ maxEncryptedBlocksPerObjectV1 ∧
      envelopeHeaderBytes + framedBytes (final r).decryptions ≤ maxCiphertextObjectBytesV1 ∧
      (final r).bytes.length ≤ w.bytes.length + maxPlaintextObjectBytesV1) ∧
    ∃ writer v', (BackupObjectWriterV1.new storedCompressor memorySink.traced default
        (some default)).run v = .ok writer v' ∧
      ∃ results s, (Traced.callAll oneBlockAead storedCompressor id memorySink
          [.writePlaintext [7, 8, 9], .finish]).run ⟨writer, v'⟩ = .ok results s ∧
        ∀ e ∈ s.world.encryptions, e.blockCount < 4095 ∧
          checkedAddLimited e.blockCount 1 maxEncryptedBlocksPerObjectV1 = .ok (e.blockCount + 1) := by
  obtain ⟨hread, hwritten, -⟩ := limits_agree oneBlockAead storedDecoder default (memorySource 1)
    memorySink { foreign := (oneBlockObject.bytes, []), delivered := [] } rfl storedCompressor
    storedCompressor_stopsAtFailure id (some default) { foreign := ([], []), delivered := [] } _ rfl
    _ rfl [.writePlaintext [7, 8, 9], .finish]
  exact ⟨hread, _, _, rfl, hwritten⟩

end KChat.Backup
