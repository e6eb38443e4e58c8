import KChat.Backup.Framing

/-!
# What sealing produces

* `SealedWith`: a byte string is the envelope of a compressed stream the encoder emits for a
  plaintext.
* `Writing`: the invariant of an object writer in use; `writePlaintext_writing`, `finish_sealed`.
* **`sealObjectV1_sealed`**: an object that is sealed successfully is `SealedWith` its
  plaintext, whatever the sink did and however the source cut it.
-/

namespace KChat.Backup

open Lib

variable {σ κ : Type} {A : StreamAead} {C : Compressor κ}

/-- The STREAM nonce prefix and the compressed stream of a sealed object, and what they say about
its bytes. -/
structure SealedWith (A : StreamAead) (C : Compressor κ) (context : BackupObjectContextV1)
    (noncePrefix : NoncePrefix) (c plaintext b : Bytes) : Prop where
  compressed : ∃ k pieces, C.new BackupObjectWriterV1.level = some k ∧
    C.stream k pieces = some c ∧ pieces.flatten = plaintext
  envelope : envelopeV1 A context noncePrefix c = some b
  plaintext_le : plaintext.length ≤ maxPlaintextObjectBytesV1
  size_le : b.length ≤ maxCiphertextObjectBytesV1

section writer

variable {context : BackupObjectContextV1} {noncePrefix : NoncePrefix} {J : σ → Prop}
  {delivered : List Bytes} {sink : BackupByteSink σ} {k : κ} {frame : Bytes → Option Bytes}
  {windowLog : ℕ}

/-- **An object writer in use**: the encoder was given `pieces`, and what it handed over is framed. -/
structure Writing (A : StreamAead) (C : Compressor κ) (context : BackupObjectContextV1)
    (noncePrefix : NoncePrefix) (J : σ → Prop) (delivered : List Bytes) (k : κ) (pieces : List Bytes)
    (writer : BackupObjectWriterV1 κ) (w : World σ) : Prop where
  terminal : writer.terminal = .active
  active : ∃ active c, writer.active = some active ∧ C.written k pieces = some (active.encoder, c) ∧
    Framed A context noncePrefix J delivered c (c.length / compressedBlockBytes)
      ⟨active.envelope, w⟩ ∧ active.plaintextBytes = pieces.flatten.length
  le : pieces.flatten.length ≤ maxPlaintextObjectBytesV1

theorem writePlaintext_writing (hC : C.Encodes frame BackupObjectWriterV1.level windowLog)
    (hsink : Harmless J sink) {pieces : List Bytes} {writer : BackupObjectWriterV1 κ} {w : World σ}
    (h : Writing A C context noncePrefix J delivered k pieces writer w) (bytes : Bytes) :
    wp (BackupObjectWriterV1.writePlaintext A C sink bytes) ⟨writer, w⟩
      (fun _ s => Writing A C context noncePrefix J delivered k (pieces ++ [bytes]) s.self s.world)
      fun _ _ => True := by
  obtain ⟨active, c, hactive, hwritten, hframed, hcount⟩ := h.active
  rw [BackupObjectWriterV1.writePlaintext, wp_bind, wp_getSelf]
  refine wp_ite (fun hbad => absurd h.terminal hbad) fun _ => ?_
  rw [wp_bind]
  refine wp_orThrow (fun active' hactive' => ?_) fun _ => trivial
  obtain rfl : active = active' := Option.some.inj (hactive.symm.trans hactive')
  split
  · trivial
  rename_i total htotal
  obtain ⟨rfl, hle⟩ := checkedAddLimited_eq_ok htotal
  rw [wp_bind, wp_get]
  dsimp only
  generalize hr : (C.writeAll active.encoder bytes).run (EnvelopeWriter.write A sink)
    ⟨active.envelope, w⟩ = r
  obtain ⟨ok, k', s'⟩ := r
  rw [wp_bind, wp_onWorld, wp_set]
  refine wp_ite (fun hok => ?_) fun _ => trivial
  obtain rfl : ok = true := hok
  obtain ⟨slices, hslices, haccepted⟩ := Drive.run_eq_ok (hC.writeAll_failsFast _ _) hr
  have hflat : (pieces ++ [bytes]).flatten.length = active.plaintextBytes + bytes.length := by
    rw [List.flatten_append, List.length_append, hcount, List.flatten_singleton]
  refine ⟨h.terminal, ⟨_, c ++ slices.flatten, rfl, Compressor.written_append_singleton hwritten
    haccepted, ?_, hflat.symm⟩, hflat.trans_le hle⟩
  exact writesAll_framed hsink hframed hslices

theorem finish_sealed (hC : C.Encodes frame BackupObjectWriterV1.level windowLog)
    (hsink : Harmless J sink) (sha256 : Bytes → Bytes) (hk : C.new BackupObjectWriterV1.level = some k)
    {pieces : List Bytes} {writer : BackupObjectWriterV1 κ} {w : World σ}
    (h : Writing A C context noncePrefix J delivered k pieces writer w) :
    wp (BackupObjectWriterV1.finish A C sha256 sink) ⟨writer, w⟩
      (fun descriptor s => ∃ c out, SealedWith A C context noncePrefix c pieces.flatten out.flatten ∧
        s.world.delivered = delivered ++ out ∧ descriptor.ciphertextSize = out.flatten.length ∧
        descriptor.ciphertextSha256 = sha256 out.flatten)
      fun _ _ => True := by
  obtain ⟨active, c, hactive, hwritten, hframed, hcount⟩ := h.active
  rw [BackupObjectWriterV1.finish, wp_bind, wp_getSelf]
  refine wp_ite (fun hbad => absurd h.terminal hbad) fun _ => ?_
  rw [wp_bind]
  refine wp_orThrow (fun active' hactive' => ?_) fun _ => trivial
  obtain rfl : active = active' := Option.some.inj (hactive.symm.trans hactive')
  rw [wp_bind, wp_get]
  dsimp only
  generalize hr : (C.tryFinish active.encoder).run (EnvelopeWriter.write A sink)
    ⟨active.envelope, w⟩ = r
  obtain ⟨ok, k', s'⟩ := r
  rw [wp_bind, wp_onWorld, wp_set]
  refine wp_ite (fun hok => ?_) fun _ => trivial
  obtain rfl : ok = true := hok
  obtain ⟨slices, hslices, haccepted⟩ := Drive.run_eq_ok (hC.tryFinish_failsFast _) hr
  have hframed' := writesAll_framed hsink hframed hslices
  split
  · rename_i descriptor s hfinish
    obtain ⟨hkept, henv, hsize, hsha⟩ := (wp_of_ok hfinish).mp (finish_kept hsink sha256 hframed')
    obtain ⟨out, hout, hflat, -⟩ := hkept.chunks
    rw [← hflat] at henv hsha
    have hlen := hkept.size
    rw [← hflat] at hlen
    refine ⟨_, out, ⟨⟨k, pieces, hk, Compressor.stream_eq_some hwritten haccepted, rfl⟩, henv, h.le,
      hlen ▸ hkept.le⟩, hout, hsize.trans hlen, hsha⟩
  · trivial

/-- What the source does to its own state does not concern the writer. -/
theorem Writing.foreign {J' : σ → Prop} {pieces : List Bytes} {writer : BackupObjectWriterV1 κ}
    {w : World σ} (h : Writing A C context noncePrefix J delivered k pieces writer w) {s : σ}
    (hs : J' s) :
    Writing A C context noncePrefix J' delivered k pieces writer { w with foreign := s } := by
  obtain ⟨active, c, hactive, hwritten, hframed, hcount⟩ := h.active
  refine ⟨h.terminal, ⟨active, c, hactive, hwritten, ?_, hcount⟩, h.le⟩
  exact { hframed with
    foreign := hs, chunks := hframed.chunks, encryptor := hframed.encryptor, hash := hframed.hash }

variable (A) in
theorem new_writing (hsink : Harmless J sink) (random : Option NoncePrefix) {w : World σ}
    (hw : J w.foreign) : wp (BackupObjectWriterV1.new C sink context random) w
      (fun writer w' => ∃ noncePrefix k, random = some noncePrefix ∧
        C.new BackupObjectWriterV1.level = some k ∧
        Writing A C context noncePrefix J w.delivered k [] writer w')
      fun _ _ => True := by
  rw [BackupObjectWriterV1.new, wp_bind]
  refine wp_orThrow (fun noncePrefix hnonce => ?_) fun _ => trivial
  rw [wp_bind]
  refine wp_mono (new_framed A sink context noncePrefix hsink w hw) (fun envelope w' hf => ?_)
    fun _ _ h => h
  rw [wp_bind]
  refine wp_orThrow (fun k hk => ?_) fun _ => trivial
  exact ⟨noncePrefix, k, hnonce, hk, rfl, ⟨_, [], rfl, rfl, hf, rfl⟩, Nat.zero_le _⟩

end writer

/-! ## The loop over the source -/

section loop

variable {context : BackupObjectContextV1} {source : BackupByteSource σ} {sink : BackupByteSink σ}
  {Rest : σ → Bytes → Prop} {frame : Bytes → Option Bytes} {windowLog : ℕ}
  (hC : C.Encodes frame BackupObjectWriterV1.level windowLog) (hserves : Serves source sink Rest)
  (sha256 : Bytes → Bytes)

theorem Serves.harmless (h : Serves source sink Rest) (rest : Bytes) :
    Harmless (fun s => Rest s rest) sink := fun _ _ => h.writeChunk

theorem cancelled_serves (h : Serves source sink Rest) {w : World σ} {rest : Bytes}
    (hR : Rest w.foreign rest) : wp source.cancelled w
      (fun _ w' => ∃ s, w' = { w with foreign := s } ∧ Rest s rest) fun _ _ => False :=
  ⟨_, rfl, h.isCancelled hR⟩

include hC hserves

theorem sealLoop_sealed {noncePrefix : NoncePrefix} {delivered : List Bytes} {k : κ}
    (hk : C.new BackupObjectWriterV1.level = some k) (rounds : ℕ) {pieces : List Bytes}
    {rest : Bytes} {writer : BackupObjectWriterV1 κ} {w : World σ}
    (h : Writing A C context noncePrefix (fun s => Rest s rest) delivered k pieces writer w) :
    wp (sealLoop A C sha256 source sink rounds writer) w
      (fun descriptor w' => ∃ c out,
        SealedWith A C context noncePrefix c (pieces.flatten ++ rest) out.flatten ∧
        w'.delivered = delivered ++ out ∧ descriptor.ciphertextSize = out.flatten.length ∧
        descriptor.ciphertextSha256 = sha256 out.flatten)
      fun _ _ => True := by
  induction rounds generalizing pieces rest writer w with
  | zero => trivial
  | succ rounds ih =>
    have hR : Rest w.foreign rest := by
      obtain ⟨active, c, -, -, hframed, -⟩ := h.active
      exact hframed.foreign
    rw [sealLoop, wp_bind]
    refine wp_mono (cancelled_serves hserves hR) (fun _ w₁ h₁ => ?_) fun _ _ h => h.elim
    obtain ⟨s₁, rfl, hR₁⟩ := h₁
    refine wp_ite (fun _ => trivial) fun _ => ?_
    rw [wp_bind, BackupByteSource.read, onForeign, wp_zoom]
    refine wp_mono (hserves.readChunk hR₁ (by decide)) (fun data s₂ h₂ => ?_) fun _ _ h => h
    obtain ⟨-, hend, rest', hrest, hR₂⟩ := h₂
    refine wp_ite (fun _ => trivial) fun _ => ?_
    rw [wp_bind]
    refine wp_mono (cancelled_serves hserves hR₂) (fun _ w₃ h₃ => ?_) fun _ _ h => h.elim
    obtain ⟨s₃, rfl, hR₃⟩ := h₃
    have hwriting : Writing A C context noncePrefix (fun s => Rest s rest') delivered k pieces writer
        { w with foreign := s₃ } := h.foreign hR₃
    refine wp_ite (fun _ => trivial) fun _ => ?_
    refine wp_ite (fun hnil => ?_) fun hne => ?_
    · rw [hend hnil, List.append_nil, wp_bind, wp_withSelf]
      exact wp_mono (finish_sealed hC (hserves.harmless rest') sha256 hk hwriting) (fun _ _ h => h)
        fun _ _ h => h
    · rw [wp_bind, wp_withSelf]
      refine wp_mono (writePlaintext_writing hC (hserves.harmless rest') hwriting data)
        (fun _ s hs => ?_) fun _ _ h => h
      refine wp_mono (ih hs) (fun descriptor w' hw' => ?_) fun _ _ h => h
      rwa [List.flatten_append, List.flatten_singleton, List.append_assoc, ← hrest] at hw'

/-- **Sealing successfully**: what the sink was given is the envelope of a compressed stream of what
the source served. -/
theorem sealObjectV1_sealed (random : Option NoncePrefix) {w : World σ} {plaintext : Bytes}
    (hR : Rest w.foreign plaintext) : wp (sealObjectV1 A C sha256 source sink context random) w
      (fun descriptor w' => ∃ noncePrefix c out, random = some noncePrefix ∧
        SealedWith A C context noncePrefix c plaintext out.flatten ∧
        w'.delivered = w.delivered ++ out ∧ descriptor.ciphertextSize = out.flatten.length ∧
        descriptor.ciphertextSha256 = sha256 out.flatten)
      fun _ _ => True := by
  rw [sealObjectV1, wp_bind]
  refine wp_mono (cancelled_serves hserves hR) (fun _ w₁ h₁ => ?_) fun _ _ h => h.elim
  obtain ⟨s₁, rfl, hR₁⟩ := h₁
  refine wp_ite (fun _ => trivial) fun _ => ?_
  rw [wp_bind]
  refine wp_mono (new_writing A (hserves.harmless plaintext) random hR₁) (fun writer w₂ h₂ => ?_)
    fun _ _ h => h
  obtain ⟨noncePrefix, k, hrandom, hk, hwriting⟩ := h₂
  refine wp_mono (sealLoop_sealed hC hserves sha256 hk _ hwriting) (fun descriptor w' hw' => ?_)
    fun _ _ h => h
  obtain ⟨c, out, hsealed, hrest⟩ := hw'
  exact ⟨noncePrefix, c, out, hrandom, hsealed, hrest⟩

end loop

end KChat.Backup
