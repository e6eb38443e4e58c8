import KChat.Backup.Grammar
import KChat.Backup.Sealing
import KChat.Lib.StoredZstd

/-!
# Seal, then open

* `nextCiphertexts_frames`: the frames of an encrypted stream decrypt to the stream.
* `sealedWith_grammar`: what sealing produces is in the grammar, with the plaintext as its content.
* **`open_of_seal`**: an object that was sealed opens to its plaintext.
-/

namespace KChat.Backup

open Lib BoundedDecoder

variable {σ τ δ κ : Type} {A : StreamAead} {context : BackupObjectContextV1}

/-! ## The envelope is in the grammar -/

/-- The first `n` ciphertexts, each at its own counter. -/
theorem nextCiphertexts_frames (hA : A.Inverts) {noncePrefix : NoncePrefix} {c rest tail : Bytes} {n : ℕ}
    {cts : List Bytes} (hn : n ≤ c.length / compressedBlockBytes)
    (hcts : nextCiphertexts A context noncePrefix c n = some cts)
    (hrest : Frames A context noncePrefix n rest tail) :
    Frames A context noncePrefix 0 ((cts.map frameOf).flatten ++ rest)
      (c.take (compressedBlockBytes * n) ++ tail) := by
  induction n generalizing cts rest tail with
  | zero =>
    cases hcts
    simpa using hrest
  | succ n ih =>
    rw [nextCiphertexts_succ] at hcts
    obtain ⟨cts', hcts', hmap⟩ := Option.bind_eq_some_iff.mp hcts
    obtain ⟨ct, hct, rfl⟩ := Option.map_eq_some_iff.mp hmap
    have hlen : ct.length = compressedBlockBytes + aeadTagBytes := by
      rw [A.encrypt_length hct, block_length hn]
      rfl
    have := ih (by omega) hcts' (.next hlen (hA _ _ _ _ _ _ _ hct) hrest)
    have hblock : c.take (compressedBlockBytes * (n + 1)) =
        c.take (compressedBlockBytes * n) ++ block compressedBlockBytes c n := by
      rw [mul_add, mul_one, List.take_add, block]
    rw [hblock, List.append_assoc, List.map_append, List.flatten_append, List.append_assoc]
    simpa using this

theorem sealedWith_grammar {C : Compressor κ} {frame : Bytes → Option Bytes} (hA : A.Inverts)
    (hC : C.Encodes frame BackupObjectWriterV1.level windowLogMax) {noncePrefix : NoncePrefix}
    {c plaintext b : Bytes} (h : SealedWith A C context noncePrefix c plaintext b) :
    V1Grammar A frame context b plaintext := by
  obtain ⟨cts, last, hcts, hlast, rfl⟩ := exists_of_envelopeV1 h.envelope
  obtain ⟨k, pieces, hk, hstream, rfl⟩ := h.compressed
  have hpos : 0 < compressedBlockBytes := by decide
  have hlen : last.length = (blockRest compressedBlockBytes c).length + aeadTagBytes :=
    A.encrypt_length hlast
  have hlt := blockRest_length_lt hpos c
  have hlast' := Frames.last (by omega) (by omega) (hA _ _ _ _ _ _ _ hlast)
  have hframes := nextCiphertexts_frames hA le_rfl hcts hlast'
  rw [blockRest, List.take_append_drop] at hframes
  refine ⟨h.size_le, noncePrefix, _, c, noncePrefix.2, List.append_assoc _ _ _, hframes,
    hC.content hk hstream, ?_, h.plaintext_le⟩
  obtain ⟨fh, hfh, hdict, hreserved, hunused, hwindow, hsize⟩ := hC.header hk hstream
  refine ⟨fh, hfh, hdict, hreserved, hunused, hwindow, fun n hn => ?_⟩
  rw [hsize n hn]
  exact h.plaintext_le

/-! ## The round trip -/

/-- **Seal, then open**: what the sink was given while an object was sealed opens to the plaintext,
however the two sources cut their bytes. -/
theorem open_of_seal (A : StreamAead) (hA : A.Inverts) (C : Compressor κ) (R : RawDecoder δ)
    (frame : Bytes → Option Bytes) (hC : C.Encodes frame BackupObjectWriterV1.level windowLogMax)
    (hsound : R.Sound frame windowLogMax) (hlive : R.Live frame windowLogMax)
    (hdelim : SelfDelimiting frame) (sha256 : Bytes → Bytes) (context : BackupObjectContextV1)
    (random : Option NoncePrefix) {source : BackupByteSource σ} {sink : BackupByteSink σ}
    {Rest : σ → Bytes → Prop} (hserves : Serves source sink Rest) {s : σ} {plaintext : Bytes}
    (hR : Rest s plaintext) {descriptor : BackupObjectDescriptor} {w : World σ}
    (hseal : (sealObjectV1 A C sha256 source sink context random).run
      { foreign := s, delivered := [] } = .ok descriptor w)
    {source' : BackupByteSource τ} {sink' : BackupByteSink τ} {Rest' : τ → Bytes → Prop}
    (honest : Honest source' sink' Rest') (hsink' : NeverFails sink') {t : τ}
    (hR' : Rest' t w.bytes) :
    ∃ w', (openObjectV1 A R source' sink' context).run { foreign := t, delivered := [] } =
      .ok () w' ∧ w'.bytes = plaintext := by
  obtain ⟨noncePrefix, c, out, -, hsealed, hout, -⟩ :=
    (wp_of_ok hseal).mp (sealObjectV1_sealed (A := A) hC hserves sha256 random hR)
  rw [World.bytes, hout, List.nil_append] at hR'
  have hgram := sealedWith_grammar hA hC hsealed
  have hspec := openObjectV1_spec A context hsound hdelim hlive honest hsink'
    (w := { foreign := t, delivered := [] }) hR'
  obtain ⟨u, w', hrun, p, hgram', hbytes⟩ := exists_run_of_wp
    (wp_mono hspec (fun _ _ h => h) fun _ _ h => absurd ⟨plaintext, hgram⟩ h)
  refine ⟨w', hrun, ?_⟩
  rw [hbytes, V1Grammar.unique hgram' hgram]
  rfl

/-- Three bytes, read two at a time while sealing and one at a time while opening. -/
theorem open_of_seal_stored : ∃ descriptor w w',
    (sealObjectV1 (taggedAead fun _ _ _ _ => true) storedCompressor (fun _ => List.replicate 32 0)
      (memorySource 2) memorySink default (some default)).run
        { foreign := [7, 8, 9], delivered := [] } = .ok descriptor w ∧
    (openObjectV1 (taggedAead fun _ _ _ _ => true) storedDecoder (memorySource 1) memorySink
      default).run { foreign := w.bytes, delivered := [] } = .ok () w' ∧ w'.bytes = [7, 8, 9] := by
  obtain ⟨descriptor, w, hseal⟩ := exists_of_isOk (show (outcome ((sealObjectV1
      (taggedAead fun _ _ _ _ => true) storedCompressor (fun _ => List.replicate 32 0)
      (memorySource 2) memorySink default (some default)).run
        { foreign := [7, 8, 9], delivered := [] })).isOk = true by decide +kernel)
  obtain ⟨w', hopen, hbytes⟩ := open_of_seal _ (taggedAead_inverts _) storedCompressor
    storedDecoder storedFrame (storedCompressor_encodes _ (by decide +kernel))
    (storedDecoder_sound _) (storedDecoder_live _) storedFrame_selfDelimiting _ default _
    (memory_honest two_pos).toServes rfl hseal (memory_honest one_pos) memorySink_neverFails rfl
  exact ⟨descriptor, w, w', hseal, hopen, hbytes⟩

end KChat.Backup
