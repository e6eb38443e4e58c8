import KChat.Backup.Chunking
import KChat.Backup.Framing
import KChat.Backup.Grammar

/-!
# Without a descriptor there is no object

* `Enveloped A context b`: `b` is a header and frames up to a LAST block;
  **`openObjectV1_enveloped`**: whatever else is wrong, the reader succeeds on no other bytes.
* `Whole`, `Unfinished`: a header and NEXT frames, and the same with a frame cut short behind;
  **`Unfinished.not_enveloped`**: no LAST block stands at the end.
* `recorded`: a caller that keeps the bytes its sink took. `write_whole`, `finish_unfinished`:
  an envelope that is not finished has passed on an unfinished byte string.
* `useWriter`: any calls of an object writer; **`neverOpened_of_no_descriptor`**.
-/

namespace KChat.Backup

open Lib

variable {σ τ δ κ : Type}

/-! ## What the reader has read when it succeeds -/

def Enveloped (A : StreamAead) (context : BackupObjectContextV1) (b : Bytes) : Prop :=
  ∃ nonce rest c, nonce.length = streamNoncePrefixBytes ∧ b = serializeHeader nonce ++ rest ∧
    Frames A context nonce 0 rest c

section reader

variable {source : BackupByteSource σ} {sink : BackupByteSink σ} {Rest : σ → Bytes → Prop}
  (h : Serves source sink Rest)

/-- `rest` is left to be read, and nothing is once the end was seen. -/
def Left (Rest : σ → Bytes → Prop) (rest : Bytes) (input : CheckedSource) (w : World σ) : Prop :=
  Rest w.foreign rest ∧ (input.eof = true → rest = [])

include h

theorem checkCancelled_left {w : World σ} {rest : Bytes} (hR : Rest w.foreign rest) :
    wp (checkCancelled source) w (fun _ w' => Rest w'.foreign rest) fun _ w' => Rest w'.foreign rest := by
  rw [checkCancelled, wp_bind]
  change wp (if (source.isCancelled w.foreign).1 then _ else _) _ _ _
  exact wp_ite (fun _ => h.isCancelled hR) fun _ => h.isCancelled hR

theorem read_left {w : World σ} {rest : Bytes} {input : CheckedSource} {n : ℕ} (hn : 0 < n)
    (hleft : Left Rest rest input w) : wp (input.read source n) w
      (fun r w' => (r.1 = [] → rest = []) ∧ ∃ rest', rest = r.1 ++ rest' ∧ Left Rest rest' r.2 w')
      fun _ _ => True := by
  rw [CheckedSource.read, wp_bind]
  refine wp_mono (checkCancelled_left h hleft.1) (fun _ w₁ h₁ => ?_) fun _ _ _ => trivial
  refine wp_ite (fun heof => ?_) fun _ => ?_
  · exact ⟨fun _ => hleft.2 heof, rest, rfl, h₁, fun _ => hleft.2 heof⟩
  have hc : 0 < min (min n maxIoChunkBytesV1) (maxCiphertextObjectBytesV1 - input.bytes + 1) := by
    simp only [maxIoChunkBytesV1]
    omega
  rw [wp_bind, BackupByteSource.read, onForeign, wp_zoom]
  refine wp_mono (h.readChunk h₁ hc) (fun data s₂ h₂ => ?_) fun _ _ _ => trivial
  obtain ⟨-, hend, rest', hrest, hR₂⟩ := h₂
  rw [wp_bind]
  refine wp_mono (checkCancelled_left (w := { w₁ with foreign := s₂ }) h hR₂) (fun _ w₃ h₃ => ?_)
    fun _ _ _ => trivial
  refine wp_ite (fun _ => trivial) fun _ => wp_ite (fun _ => trivial) fun _ => ?_
  refine ⟨hend, rest', hrest, h₃, fun heof => ?_⟩
  have hnil := hend (of_decide_eq_true heof)
  rw [hnil] at hrest
  exact (List.append_eq_nil_iff.mp hrest.symm).2

theorem readExact_left (n : ℕ) {w : World σ} {rest : Bytes} {input : CheckedSource}
    (hleft : Left Rest rest input w) : wp (input.readExact source n) w
      (fun r w' => r.1.length = n ∧ ∃ rest', rest = r.1 ++ rest' ∧ Left Rest rest' r.2 w')
      fun _ _ => True := by
  induction n using Nat.strong_induction_on generalizing w rest input with
  | _ n ih =>
    rw [CheckedSource.readExact]
    split
    · rename_i hn
      exact ⟨hn.symm, rest, rfl, hleft⟩
    rename_i hn
    rw [wp_bind]
    refine wp_mono (wp_and (read_left h (by omega) hleft) (read_counted source input n w))
      (fun r w₁ h₁ => ?_) fun _ _ _ => trivial
    obtain ⟨⟨-, rest₁, hrest, hleft₁⟩, hle, -⟩ := h₁
    split
    · trivial
    rename_i hne
    have := List.length_pos_iff.mpr hne
    rw [wp_bind]
    refine wp_mono (ih _ (by omega) hleft₁) (fun r' w₂ h₂ => ?_) fun _ _ _ => trivial
    obtain ⟨hlen, rest₂, hrest₁, hleft₂⟩ := h₂
    refine ⟨?_, rest₂, ?_, hleft₂⟩
    · rw [List.length_append, hlen]
      omega
    · rw [hrest, hrest₁, List.append_assoc]

theorem nextLength_left {w : World σ} {rest : Bytes} {input : CheckedSource}
    (hleft : Left Rest rest input w) : wp (input.nextLength source) w
      (fun r w' => match r.1 with
        | none => rest = []
        | some n => aeadTagBytes ≤ n ∧ n ≤ compressedBlockBytes + aeadTagBytes ∧
            ∃ rest', rest = toBE 4 n ++ rest' ∧ Left Rest rest' r.2 w')
      fun _ _ => True := by
  rw [CheckedSource.nextLength, wp_bind]
  refine wp_mono (wp_and (read_left h one_pos hleft) (read_counted source input 1 w))
    (fun first w₁ h₁ => ?_) fun _ _ _ => trivial
  obtain ⟨⟨hend, rest₁, hrest, hleft₁⟩, hle, -⟩ := h₁
  refine wp_ite (fun hnil => hend hnil) fun hne => ?_
  have := List.length_pos_iff.mpr hne
  rw [wp_bind]
  refine wp_mono (readExact_left h 3 hleft₁) (fun r w₂ h₂ => ?_) fun _ _ _ => trivial
  obtain ⟨hlen, rest₂, hrest₁, hleft₂⟩ := h₂
  refine wp_ite (fun _ => trivial) fun hrange => ?_
  have hfield : (first.1 ++ r.1).length = 4 := by
    rw [List.length_append]
    omega
  refine ⟨by omega, by omega, rest₂, ?_, hleft₂⟩
  rw [← hfield, toBE_ofBE, hrest, hrest₁, List.append_assoc]

variable (A : StreamAead) (R : RawDecoder δ) (context : BackupObjectContextV1)

omit h in
theorem push_left (hserves : Serves source sink Rest) (d : BoundedDecoder δ) (bytes : Bytes)
    {w : World σ} {rest : Bytes} (hR : Rest w.foreign rest) :
    wp (d.push R sink.write (checkCancelled source) bytes) w (fun _ w' => Rest w'.foreign rest)
      fun _ w' => Rest w'.foreign rest := by
  refine Sim.keeps (I := fun w' => Rest w'.foreign rest) (sim_push R (fun _ _ h => h)
    (fun chunk => Sim.of_keeps fun v hv => ?_) (Sim.of_keeps fun v hv => ?_) d bytes) hR
  · rw [BackupByteSink.write, wp_bind, wp_modify, onForeign, wp_zoom]
    exact hserves.writeChunk hv
  · exact checkCancelled_left hserves hv

/-- **The frame loop succeeds only behind a LAST block**; the induction is on the rounds. -/
theorem authenticateLoop_frames {nonce : Bytes} (rounds i length : ℕ) (input : CheckedSource)
    (decoder : BoundedDecoder δ) {w : World σ} {rest : Bytes} (hleft : Left Rest rest input w)
    (hlength : aeadTagBytes ≤ length ∧ length ≤ compressedBlockBytes + aeadTagBytes) :
    wp (authenticateLoop A R source sink context rounds input
        { key := context.objectKey, nonce := nonce, position := i } decoder length) w
      (fun _ _ => ∃ c, Frames A context nonce i (toBE 4 length ++ rest) c) fun _ _ => True := by
  induction rounds generalizing i length input decoder w rest with
  | zero => trivial
  | succ rounds ih =>
    rw [authenticateLoop, wp_bind]
    refine wp_mono (readExact_left h length hleft) (fun frame w₁ h₁ => ?_) fun _ _ _ => trivial
    obtain ⟨hlen, rest₁, rfl, hleft₁⟩ := h₁
    rw [wp_bind]
    refine wp_mono (nextLength_left h hleft₁) (fun next w₂ h₂ => ?_) fun _ _ _ => trivial
    refine wp_ite (fun _ => trivial) fun hshape => ?_
    have hframe : toBE 4 length ++ frame.1 = frameOf frame.1 := by rw [frameOf, hlen]
    split
    · rename_i n hn
      rw [hn] at h₂ hshape
      obtain ⟨hn₁, hn₂, rest₂, hrest₁, hleft₂⟩ := h₂
      rw [wp_bind]
      refine wp_orThrow (fun dec hdec => ?_) fun _ => trivial
      obtain ⟨hdec', hnew⟩ := StreamDecryptor.decryptNext_eq_some hdec
      rw [wp_bind]
      refine wp_mono (checkCancelled_left h hleft₂.1) (fun _ w₃ h₃ => ?_) fun _ _ _ => trivial
      rw [wp_bind]
      refine wp_mono (push_left R h decoder dec.1 h₃) (fun d w₄ h₄ => ?_) fun _ _ _ => trivial
      rw [hnew]
      refine wp_mono (ih (i + 1) n _ d ⟨h₄, hleft₂.2⟩ ⟨hn₁, hn₂⟩) (fun _ _ h₅ => ?_)
        fun _ _ _ => trivial
      obtain ⟨c, hframes⟩ := h₅
      have hfull : length = compressedBlockBytes + aeadTagBytes := by
        by_contra hne
        exact hshape ⟨rfl, hne⟩
      refine ⟨dec.1 ++ c, ?_⟩
      rw [← List.append_assoc, hframe, hrest₁]
      exact .next (hlen.trans hfull) hdec' hframes
    · rename_i hn
      rw [hn] at h₂
      subst h₂
      rw [wp_bind]
      refine wp_orThrow (fun msg hdec => ?_) fun _ => trivial
      rw [wp_bind]
      refine wp_mono (wp_true _ _) (fun _ w₃ _ => ?_) fun _ _ _ => trivial
      refine wp_mono (wp_true _ _) (fun _ _ _ => ⟨msg, ?_⟩) fun _ _ _ => trivial
      rw [List.append_nil, hframe]
      exact .last (hlen ▸ hlength.1) (hlen ▸ hlength.2) hdec

/-- **The reader succeeds only on an envelope.** -/
theorem openObjectV1_enveloped {w : World σ} {b : Bytes} (hR : Rest w.foreign b) :
    wp (openObjectV1 A R source sink context) w (fun _ _ => Enveloped A context b)
      fun _ _ => True := by
  rw [openObjectV1, wp_bind, CheckedSource.new, wp_bind]
  refine wp_mono (checkCancelled_left h hR) (fun _ w₁ h₁ => ?_) fun _ _ _ => trivial
  rw [wp_pure, wp_bind]
  have hnew : wp (BoundedDecoder.new R) w₁ (fun _ w' => w' = w₁) fun _ _ => True :=
    wp_mono (new_fed (fun _ => none) False w₁) (fun _ _ h => h.1) fun _ _ _ => trivial
  refine wp_mono hnew (fun decoder w₂ h₂ => ?_) fun _ _ _ => trivial
  subst h₂
  rw [wp_bind, authenticateEnvelope, wp_bind]
  have hleft : Left Rest b { bytes := 0, eof := false } w₂ := ⟨h₁, fun h => by cases h⟩
  refine wp_mono (readExact_left h envelopeHeaderBytes hleft) (fun header w₃ h₃ => ?_)
    fun _ _ _ => trivial
  obtain ⟨hlen, rest, rfl, hleft₃⟩ := h₃
  rw [wp_bind]
  refine wp_ofResult (fun nonce hnonce => ?_) fun _ _ => trivial
  rw [wp_bind]
  refine wp_mono (nextLength_left h hleft₃) (fun first w₄ h₄ => ?_) fun _ _ _ => trivial
  rw [wp_bind]
  refine wp_orThrow (fun length hlength => ?_) fun _ => trivial
  rw [hlength] at h₄
  obtain ⟨hlo, hhi, rest', rfl, hleft₄⟩ := h₄
  refine wp_mono (authenticateLoop_frames h A R context _ 0 length _ decoder hleft₄ ⟨hlo, hhi⟩)
    (fun d w₅ h₅ => ?_) fun _ _ _ => trivial
  obtain ⟨c, hframes⟩ := h₅
  have hheader := parseHeader_eq_ok.mp hnonce
  have henv : Enveloped A context (header.1 ++ (toBE 4 length ++ rest')) := by
    refine ⟨nonce, _, c, ?_, by rw [hheader], hframes⟩
    have hlen' := congrArg List.length hheader
    rw [serializeHeader_length, hlen] at hlen'
    simp only [envelopeHeaderBytes, streamNoncePrefixBytes] at hlen' ⊢
    omega
  rw [wp_bind]
  refine wp_mono (wp_true _ _) (fun _ _ _ => ?_) fun _ _ _ => trivial
  exact wp_ofResult (fun _ _ => henv) fun _ _ => trivial

end reader

/-! ## Byte strings that are cut short -/

section unfinished

variable (A : StreamAead)

/-- **A NEXT ciphertext never verifies as LAST**, under no key, nonce, counter and context. -/
def NextNeverLast : Prop :=
  ∀ key nonce i aad msg ct, A.encrypt key nonce i false aad msg = some ct →
    ∀ key' nonce' i' aad', A.decrypt key' nonce' i' true aad' ct = none

def NextCiphertext (ct : Bytes) : Prop :=
  ∃ key nonce i aad msg, A.encrypt key nonce i false aad msg = some ct ∧
    msg.length = compressedBlockBytes

/-- A header and frames of full NEXT blocks. -/
def Whole (b : Bytes) : Prop :=
  ∃ (nonce : Bytes) (cts : List Bytes), nonce.length = streamNoncePrefixBytes ∧
    (∀ ct ∈ cts, NextCiphertext A ct) ∧ b = serializeHeader nonce ++ (cts.map frameOf).flatten

/-- Part of a frame, or nothing of it. -/
def Cut (tail : Bytes) : Prop :=
  ∃ ct : Bytes, aeadTagBytes ≤ ct.length ∧ ct.length ≤ compressedBlockBytes + aeadTagBytes ∧
    tail <+: frameOf ct ∧ tail ≠ frameOf ct

/-- **An unfinished envelope**: part of a header, or frames of NEXT blocks and part of a frame. -/
def Unfinished (b : Bytes) : Prop :=
  (∃ nonce, nonce.length = streamNoncePrefixBytes ∧ b <+: serializeHeader nonce ∧
    b ≠ serializeHeader nonce) ∨ ∃ whole tail, Whole A whole ∧ Cut tail ∧ b = whole ++ tail

variable {A}

theorem cut_nil : Cut [] := by
  refine ⟨List.replicate aeadTagBytes 0, ?_, ?_, List.nil_prefix, ?_⟩
  · rw [List.length_replicate]
  · rw [List.length_replicate]
    exact Nat.le_add_left _ _
  · exact fun h => by simp [frameOf, toBE] at h

theorem Whole.unfinished {b : Bytes} (h : Whole A b) : Unfinished A b :=
  .inr ⟨b, [], h, cut_nil, (List.append_nil b).symm⟩

theorem unfinished_nil : Unfinished A [] := by
  refine .inl ⟨List.replicate streamNoncePrefixBytes 0, List.length_replicate, List.nil_prefix, ?_⟩
  intro h
  simp [serializeHeader, envelopeMagic] at h

theorem NextCiphertext.length {ct : Bytes} (h : NextCiphertext A ct) :
    ct.length = compressedBlockBytes + aeadTagBytes := by
  obtain ⟨key, nonce, i, aad, msg, henc, hmsg⟩ := h
  rw [A.encrypt_length henc, hmsg]
  rfl

variable {context : BackupObjectContextV1} {nonce tail c : Bytes}

theorem Cut.not_frames (h : Cut tail) (i : ℕ) : ¬ Frames A context nonce i tail c := by
  intro hframes
  obtain ⟨ct, -, hct, hpre, hne⟩ := h
  obtain ⟨n, rest, rfl, hn₁, hn₂⟩ := frames_eq_toBE hframes
  obtain ⟨more, hmore⟩ := hpre
  rw [frameOf, List.append_assoc] at hmore
  obtain ⟨hfield, hrest⟩ := List.append_inj hmore (by simp)
  have hlt : ∀ {m}, m ≤ compressedBlockBytes + aeadTagBytes → m < 256 ^ 4 := fun h => by
    simp only [compressedBlockBytes, aeadTagBytes] at h
    omega
  have hlength := congrArg ofBE hfield
  rw [ofBE_toBE (hlt hn₂), ofBE_toBE (hlt hct)] at hlength
  have hle : n ≤ rest.length := by
    rcases frames_cases hframes hn₂ with ⟨heq, -⟩ | ⟨-, hle, -⟩
    · exact heq.ge
    · exact hle
  have hsum := congrArg List.length hrest
  rw [List.length_append] at hsum
  have hnil : more = [] := List.length_eq_zero_iff.mp (by omega)
  rw [hnil, List.append_nil] at hrest
  exact hne (by rw [frameOf, ← hfield, hrest])

/-- NEXT blocks and part of a frame are no sequence of frames; the induction is on the blocks. -/
theorem not_frames_of_next (hideal : NextNeverLast A) (htail : Cut tail) {cts : List Bytes}
    (hcts : ∀ ct ∈ cts, NextCiphertext A ct) (i : ℕ) :
    ¬ Frames A context nonce i ((cts.map frameOf).flatten ++ tail) c := by
  induction cts generalizing i c with
  | nil => exact htail.not_frames i
  | cons ct cts ih =>
    have hnext := hcts ct List.mem_cons_self
    intro hframes
    rw [List.map_cons, List.flatten_cons, frameOf, List.append_assoc, List.append_assoc] at hframes
    rcases frames_cases hframes hnext.length.le with ⟨hlen, hdec⟩ | ⟨-, -, msg, c', -, -, hrest⟩
    · rw [List.length_append] at hlen
      have hnil : (cts.map frameOf).flatten ++ tail = [] := List.length_eq_zero_iff.mp (by omega)
      rw [hnil, List.append_nil] at hdec
      obtain ⟨key, nonce', j, aad, msg, henc, -⟩ := hnext
      rw [hideal _ _ _ _ _ _ henc] at hdec
      cases hdec
    · rw [List.drop_left] at hrest
      exact ih (fun ct h => hcts ct (List.mem_cons_of_mem _ h)) (i + 1) hrest

/-- **An unfinished envelope is no envelope**, under no context. -/
theorem Unfinished.not_enveloped (hideal : NextNeverLast A) {b : Bytes} (h : Unfinished A b) :
    ¬ Enveloped A context b := by
  rintro ⟨nonce, rest, c, hnonce, rfl, hframes⟩
  rcases h with ⟨nonce', hnonce', hpre, hne⟩ | ⟨whole, tail, ⟨nonce', cts, hnonce', hcts, rfl⟩, htail, hb⟩
  · have hlen := hpre.length_le
    rw [List.length_append, serializeHeader_length, serializeHeader_length, hnonce, hnonce'] at hlen
    exact hne (hpre.eq_of_length_le (by
      rw [List.length_append, serializeHeader_length, serializeHeader_length, hnonce, hnonce']
      omega))
  · rw [List.append_assoc] at hb
    obtain ⟨-, rfl⟩ := List.append_inj hb (by
      rw [serializeHeader_length, serializeHeader_length, hnonce, hnonce'])
    exact not_frames_of_next hideal htail hcts 0 hframes

end unfinished

/-! ## The envelope writer -/

def BackupByteSource.recorded (source : BackupByteSource σ) : BackupByteSource (σ × Bytes) where
  readChunk capacity := zoom Prod.fst (fun s t => (s, t.2)) (source.readChunk capacity)
  isCancelled t := ((source.isCancelled t.1).1, ((source.isCancelled t.1).2, t.2))

/-- The sink, which records the chunks it took. -/
def BackupByteSink.recorded (sink : BackupByteSink σ) : BackupByteSink (σ × Bytes) where
  writeChunk chunk := do
    zoom Prod.fst (fun s t => (s, t.2)) (sink.writeChunk chunk)
    modify fun t => (t.1, t.2 ++ chunk)

/-- The bytes of the chunks for which the sink returned without an error. -/
def World.taken (w : World (σ × Bytes)) : Bytes := w.foreign.2

section writer

open EnvelopeWriter

variable {A : StreamAead} {sink : BackupByteSink σ}

theorem write_taken (chunk : Bytes) (w : World (σ × Bytes)) : wp (sink.recorded.write chunk) w
    (fun _ w' => w'.taken = w.taken ++ chunk) fun _ w' => w'.taken = w.taken := by
  rw [BackupByteSink.write, wp_bind, wp_modify, onForeign, wp_zoom, BackupByteSink.recorded, wp_bind,
    wp_zoom]
  exact wp_mono (wp_true _ _) (fun _ _ _ => rfl) fun _ _ _ => rfl

/-- If not all bytes were taken, the taken ones are a proper beginning of them. -/
theorem writeEnvelopeBytes_taken {bytes : Bytes} (hne : bytes ≠ [])
    (s : Owning EnvelopeWriter (World (σ × Bytes))) :
    wp (writeEnvelopeBytes sink.recorded bytes) s
      (fun _ s' => s'.world.taken = s.world.taken ++ bytes)
      fun _ s' => ∃ part, part <+: bytes ∧ part ≠ bytes ∧
        s'.world.taken = s.world.taken ++ part := by
  have hnone : ∀ s' : Owning EnvelopeWriter (World (σ × Bytes)), s'.world.taken = s.world.taken →
      ∃ part, part <+: bytes ∧ part ≠ bytes ∧ s'.world.taken = s.world.taken ++ part :=
    fun s' h => ⟨[], List.nil_prefix, hne.symm, by rw [h, List.append_nil]⟩
  have hpos : 0 < maxIoChunkBytesV1 := by decide
  simp only [writeEnvelopeBytes, wp_bind, wp_getSelf, wp_modifySelf]
  refine wp_ofResult (fun total _ => ?_) fun _ _ => hnone s rfl
  refine wp_mono (wp_forM (fun done t => t.world.taken = s.world.taken ++ done.flatten) _
    (fun done chunk t hpre ht => ?_) (List.append_nil _).symm) (fun _ t ht => ?_) fun _ _ h => h
  · rw [wp_onWorld]
    refine wp_mono (write_taken chunk t.world) (fun _ w hw => ?_) fun _ w hw => ?_
    · rw [hw, ht, List.flatten_append, List.flatten_singleton, List.append_assoc]
    · obtain ⟨rest, hrest⟩ := hpre
      have hbytes : done.flatten ++ (chunk ++ rest.flatten) = bytes := by
        rw [← chunks_flatten hpos bytes, ← hrest]
        simp only [List.flatten_append, List.flatten_singleton, List.append_assoc]
      have hchunk : chunk ∈ chunks maxIoChunkBytesV1 bytes := by
        rw [← hrest]
        simp
      have hlen := (mem_chunks hpos hchunk).1
      refine ⟨done.flatten, ⟨_, hbytes⟩, fun heq => ?_, hw.trans ht⟩
      have := congrArg List.length hbytes
      rw [List.length_append, List.length_append, heq] at this
      omega
  · rw [ht, chunks_flatten hpos]

theorem writeEncryptedBlock_taken (ct : Bytes) (s : Owning EnvelopeWriter (World (σ × Bytes))) :
    wp (writeEncryptedBlock sink.recorded ct) s
      (fun _ s' => s'.world.taken = s.world.taken ++ frameOf ct)
      fun _ s' => ∃ tail, Cut tail ∧ s'.world.taken = s.world.taken ++ tail := by
  have hnone : ∃ tail, Cut tail ∧ s.world.taken = s.world.taken ++ tail :=
    ⟨[], cut_nil, (List.append_nil _).symm⟩
  have hfield : toBE 4 ct.length ≠ [] := by simp [toBE]
  unfold writeEncryptedBlock
  refine wp_ite (fun _ => hnone) fun hrange => ?_
  have hct : ct ≠ [] := by
    rintro rfl
    simp [aeadTagBytes] at hrange
  simp only [wp_bind, wp_getSelf]
  refine wp_ofResult (fun total _ => ?_) fun _ _ => hnone
  rw [wp_modifySelf]
  refine wp_ite (fun _ => hnone) fun _ => ?_
  rw [wp_bind]
  refine wp_mono (writeEnvelopeBytes_taken hfield _) (fun _ s₁ h₁ => ?_) fun _ s₁ h₁ => ?_
  · refine wp_mono (writeEnvelopeBytes_taken hct s₁) (fun _ s₂ h₂ => ?_) fun _ s₂ h₂ => ?_
    · rw [h₂, h₁, frameOf, List.append_assoc]
    · obtain ⟨part, hpre, hne, h₂⟩ := h₂
      refine ⟨toBE 4 ct.length ++ part, ⟨ct, by omega, by omega, ?_, ?_⟩, ?_⟩
      · exact (List.prefix_append_right_inj _).mpr hpre
      · exact fun h => hne (List.append_cancel_left h)
      · rw [h₂, h₁, List.append_assoc]
  · obtain ⟨part, hpre, hne, h₁⟩ := h₁
    refine ⟨part, ⟨ct, by omega, by omega, hpre.trans (List.prefix_append _ _), ?_⟩, h₁⟩
    rintro rfl
    have := hpre.length_le
    rw [frameOf_length, toBE_length] at this
    have := List.length_pos_iff.mpr hct
    omega

theorem writeEncryptedBlock_whole {ct : Bytes} (hct : NextCiphertext A ct)
    {s : Owning EnvelopeWriter (World (σ × Bytes))} (h : Whole A s.world.taken) :
    wp (writeEncryptedBlock sink.recorded ct) s (fun _ s' => Whole A s'.world.taken)
      fun _ s' => Unfinished A s'.world.taken := by
  refine wp_mono (writeEncryptedBlock_taken ct s) (fun _ s' hs' => ?_) fun _ s' hs' => ?_
  · obtain ⟨nonce, cts, hnonce, hcts, htaken⟩ := h
    refine ⟨nonce, cts ++ [ct], hnonce, ?_, ?_⟩
    · intro ct' hmem
      rcases List.mem_append.mp hmem with hmem | hmem
      · exact hcts ct' hmem
      · rwa [List.mem_singleton.mp hmem]
    · rw [hs', htaken, List.map_append, List.flatten_append, List.append_assoc]
      simp
  · obtain ⟨tail, htail, htaken⟩ := hs'
    exact .inr ⟨_, tail, h, htail, htaken⟩

theorem drain_whole (pending : Bytes) {s : Owning EnvelopeWriter (World (σ × Bytes))}
    (h : Whole A s.world.taken) : wp (drain A sink.recorded pending) s
      (fun _ s' => Whole A s'.world.taken) fun _ s' => Unfinished A s'.world.taken := by
  have hB : 0 < compressedBlockBytes := by decide
  induction pending using block_induction hB generalizing s with
  | short pending hlt =>
    rw [drain, dif_neg (by omega)]
    exact h
  | step b rest hb ih =>
    rw [drain, dif_pos (by rw [List.length_append]; omega)]
    simp only [List.take_left' hb, List.drop_left' hb, wp_bind, wp_modifySelf, wp_getSelf]
    refine wp_orThrow (fun e _ => ?_) fun _ => h.unfinished
    refine wp_orThrow (fun r hr => ?_) fun _ => h.unfinished
    have hct : NextCiphertext A r.1 :=
      ⟨_, _, _, _, b, (StreamEncryptor.encryptNext_eq_some hr).1, hb⟩
    exact wp_mono (writeEncryptedBlock_whole hct h) (fun _ s' hs' => ih hs') fun _ _ h => h

theorem write_whole (bytes : Bytes) (s : Owning EnvelopeWriter (World (σ × Bytes)))
    (h : Whole A s.world.taken) : if (EnvelopeWriter.write A sink.recorded bytes s).1 then
      Whole A (EnvelopeWriter.write A sink.recorded bytes s).2.world.taken
    else Unfinished A (EnvelopeWriter.write A sink.recorded bytes s).2.world.taken := by
  have hspec : wp (writeCompressed A sink.recorded bytes) s (fun _ s' => Whole A s'.world.taken)
      fun _ s' => Unfinished A s'.world.taken := by
    simp only [writeCompressed, wp_bind, wp_getSelf, wp_modifySelf]
    exact wp_ofResult (fun _ _ => drain_whole _ h) fun _ _ => h.unfinished
  unfold EnvelopeWriter.write
  cases hrun : (writeCompressed A sink.recorded bytes).run s with
  | ok u t => exact (wp_of_ok hrun).mp hspec
  | error e t => exact (wp_of_error hrun).mp hspec

theorem new_whole {context : BackupObjectContextV1} {noncePrefix : NoncePrefix}
    {w : World (σ × Bytes)} (h : w.taken = []) :
    wp (EnvelopeWriter.new sink.recorded context noncePrefix) w (fun _ w' => Whole A w'.taken)
      fun _ w' => Unfinished A w'.taken := by
  have hne : serializeHeader noncePrefix ≠ [] := by simp [serializeHeader, envelopeMagic]
  simp only [EnvelopeWriter.new, wp_bind, wp_withSelf, wp_pure]
  refine wp_mono (writeEnvelopeBytes_taken hne _) (fun _ s hs => ?_) fun _ s hs => ?_
  · refine ⟨noncePrefix, [], noncePrefix.2, by simp, ?_⟩
    rw [hs, h, List.nil_append, List.map_nil, List.flatten_nil, List.append_nil]
  · obtain ⟨part, hpre, hpart, hs⟩ := hs
    rw [h, List.nil_append] at hs
    exact .inl ⟨noncePrefix, noncePrefix.2, hs ▸ hpre, hs ▸ hpart⟩

/-- The LAST block is not taken as a whole unless there is a descriptor. -/
theorem finish_unfinished {sha256 : Bytes → Bytes} {s : Owning EnvelopeWriter (World (σ × Bytes))}
    (h : Whole A s.world.taken) : wp (EnvelopeWriter.finish A sha256 sink.recorded) s
      (fun _ _ => True) fun _ s' => Unfinished A s'.world.taken := by
  simp only [EnvelopeWriter.finish, wp_bind, wp_getSelf, wp_modifySelf, wp_pure]
  refine wp_orThrow (fun e _ => ?_) fun _ => h.unfinished
  refine wp_orThrow (fun last _ => ?_) fun _ => h.unfinished
  refine wp_mono (writeEncryptedBlock_taken last _) (fun _ _ _ => trivial) fun _ s' hs' => ?_
  obtain ⟨tail, htail, htaken⟩ := hs'
  exact .inr ⟨_, tail, h, htail, htaken⟩

end writer

/-! ## The object writer -/

section object

variable {A : StreamAead} {C : Compressor κ} {sink : BackupByteSink σ}
  {source : BackupByteSource σ} {sha256 : Bytes → Bytes} {context : BackupObjectContextV1}

/-- **What the sink has taken is unfinished**, and whole while the writer is in use. -/
structure Underway (A : StreamAead) (writer : BackupObjectWriterV1 κ) (w : World (σ × Bytes)) :
    Prop where
  unfinished : Unfinished A w.taken
  whole : writer.active.isSome → Whole A w.taken

theorem underway_inactive {w : World (σ × Bytes)} {terminal : WriterTerminal}
    (h : Unfinished A w.taken) :
    Underway A ({ active := none, terminal := terminal } : BackupObjectWriterV1 κ) w :=
  ⟨h, fun h => by cases h⟩

theorem new_underway (random : Option NoncePrefix) {w : World (σ × Bytes)} (h : w.taken = []) :
    wp (BackupObjectWriterV1.new C sink.recorded context random) w
      (fun writer w' => Underway A writer w') fun _ w' => Unfinished A w'.taken := by
  have hnil : Unfinished A w.taken := by
    rw [h]
    exact unfinished_nil
  rw [BackupObjectWriterV1.new, wp_bind]
  refine wp_orThrow (fun noncePrefix _ => ?_) fun _ => hnil
  rw [wp_bind]
  refine wp_mono (new_whole h) (fun envelope w' hw' => ?_) fun _ _ h => h
  rw [wp_bind]
  exact wp_orThrow (fun _ _ => ⟨hw'.unfinished, fun _ => hw'⟩) fun _ => hw'.unfinished

theorem writePlaintext_underway (hC : C.StopsAtFailure) (bytes : Bytes)
    {s : Owning (BackupObjectWriterV1 κ) (World (σ × Bytes))} (h : Underway A s.self s.world) :
    wp (BackupObjectWriterV1.writePlaintext A C sink.recorded bytes) s
      (fun _ s' => Underway A s'.self s'.world) fun _ s' => Underway A s'.self s'.world := by
  rw [BackupObjectWriterV1.writePlaintext, wp_bind, wp_getSelf]
  refine wp_ite (fun _ => h) fun _ => ?_
  rw [wp_bind]
  refine wp_orThrow (fun active hactive => ?_) fun _ => h
  split
  · exact underway_inactive h.unfinished
  rw [wp_bind, wp_get]
  have hwhole : Whole A s.world.taken := h.whole (by rw [hactive]; rfl)
  have hkeeps := Drive.run_keeps (f := EnvelopeWriter.write A sink.recorded)
    (fun s => Whole.unfinished) (fun slice s hs => write_whole slice s hs)
    (hC.1 active.encoder bytes) (s := ⟨active.envelope, s.world⟩) hwhole
  rw [wp_bind, wp_onWorld, wp_set]
  refine wp_ite (fun hok => ?_) fun hok => ?_
  · rw [if_pos hok] at hkeeps
    exact ⟨hkeeps.unfinished, fun _ => hkeeps⟩
  · rw [if_neg hok] at hkeeps
    exact underway_inactive hkeeps

theorem finish_underway (hC : C.StopsAtFailure)
    {s : Owning (BackupObjectWriterV1 κ) (World (σ × Bytes))} (h : Underway A s.self s.world) :
    wp (BackupObjectWriterV1.finish A C sha256 sink.recorded) s (fun _ _ => True)
      fun _ s' => Underway A s'.self s'.world := by
  rw [BackupObjectWriterV1.finish, wp_bind, wp_getSelf]
  refine wp_ite (fun _ => h) fun _ => ?_
  rw [wp_bind]
  refine wp_orThrow (fun active hactive => ?_) fun _ => h
  have hwhole : Whole A s.world.taken := h.whole (by rw [hactive]; rfl)
  have hkeeps := Drive.run_keeps (f := EnvelopeWriter.write A sink.recorded)
    (fun s => Whole.unfinished) (fun slice s hs => write_whole slice s hs)
    (hC.2 active.encoder) (s := ⟨active.envelope, s.world⟩) hwhole
  rw [wp_bind, wp_get, wp_bind, wp_onWorld, wp_set]
  refine wp_ite (fun hok => ?_) fun hok => ?_
  · rw [if_pos hok] at hkeeps
    split
    · trivial
    · rename_i e t hrun
      exact underway_inactive ((wp_of_error hrun).mp (finish_unfinished hkeeps))
  · rw [if_neg hok] at hkeeps
    exact underway_inactive hkeeps

theorem abort_underway {s : Owning (BackupObjectWriterV1 κ) (World (σ × Bytes))}
    (h : Underway A s.self s.world) : wp BackupObjectWriterV1.abort s
      (fun _ s' => Underway A s'.self s'.world) fun _ s' => Underway A s'.self s'.world := by
  rw [BackupObjectWriterV1.abort, wp_bind, wp_getSelf]
  exact wp_ite (fun _ => h) fun _ => underway_inactive h.unfinished

inductive WriterCall
  | writePlaintext (bytes : Bytes) | finish | abort

variable (A C sink sha256) in
/-- Calls in a row, also after an error, until there is a descriptor; then the writer is dropped. -/
def useWriter : List WriterCall →
    Method (BackupObjectWriterV1 κ) σ (Option BackupObjectDescriptor)
  | [] => pure none
  | .writePlaintext bytes :: calls => do
    let _ ← attempt (BackupObjectWriterV1.writePlaintext A C sink bytes)
    useWriter calls
  | .abort :: calls => do
    let _ ← attempt BackupObjectWriterV1.abort
    useWriter calls
  | .finish :: calls => do
    match ← attempt (BackupObjectWriterV1.finish A C sha256 sink) with
    | .ok descriptor => return some descriptor
    | .error _ => useWriter calls

theorem useWriter_underway (hC : C.StopsAtFailure) (calls : List WriterCall)
    {s : Owning (BackupObjectWriterV1 κ) (World (σ × Bytes))} (h : Underway A s.self s.world) :
    wp (useWriter A C sink.recorded sha256 calls) s
      (fun descriptor s' => descriptor = none → Unfinished A s'.world.taken)
      fun _ s' => Unfinished A s'.world.taken := by
  induction calls generalizing s with
  | nil => exact fun _ => h.unfinished
  | cons call calls ih =>
    cases call with
    | writePlaintext bytes =>
      rw [useWriter, wp_bind, wp_attempt]
      exact wp_mono (writePlaintext_underway hC bytes h) (fun _ _ hs => ih hs) fun _ _ hs => ih hs
    | abort =>
      rw [useWriter, wp_bind, wp_attempt]
      exact wp_mono (abort_underway h) (fun _ _ hs => ih hs) fun _ _ hs => ih hs
    | finish =>
      rw [useWriter, wp_bind, wp_attempt]
      exact wp_mono (finish_underway hC h) (fun _ _ _ hnone => by cases hnone) fun _ _ hs => ih hs

theorem cancelled_underway {writer : BackupObjectWriterV1 κ} {w : World (σ × Bytes)}
    (h : Underway A writer w) : wp source.recorded.cancelled w (fun _ w' => Underway A writer w')
      fun _ w' => Unfinished A w'.taken :=
  ⟨h.unfinished, h.whole⟩

/-- **The loop over the source**, wherever it stops. -/
theorem sealLoop_unfinished (hC : C.StopsAtFailure) (rounds : ℕ)
    {writer : BackupObjectWriterV1 κ} {w : World (σ × Bytes)} (h : Underway A writer w) :
    wp (sealLoop A C sha256 source.recorded sink.recorded rounds writer) w (fun _ _ => True)
      fun _ w' => Unfinished A w'.taken := by
  induction rounds generalizing writer w with
  | zero => exact h.unfinished
  | succ rounds ih =>
    rw [sealLoop, wp_bind]
    refine wp_mono (cancelled_underway h) (fun _ w₁ h₁ => ?_) fun _ _ h => h
    refine wp_ite (fun _ => h₁.unfinished) fun _ => ?_
    rw [wp_bind]
    have hread : wp (source.recorded.read maxIoChunkBytesV1) w₁ (fun _ w' => Underway A writer w')
        fun _ w' => Unfinished A w'.taken := by
      rw [BackupByteSource.read, onForeign, wp_zoom, BackupByteSource.recorded, wp_zoom]
      exact wp_mono (wp_true _ _) (fun _ _ _ => ⟨h₁.unfinished, h₁.whole⟩) fun _ _ _ => h₁.unfinished
    refine wp_mono hread (fun data w₂ h₂ => ?_) fun _ _ h => h
    refine wp_ite (fun _ => h₂.unfinished) fun _ => ?_
    rw [wp_bind]
    refine wp_mono (cancelled_underway h₂) (fun _ w₃ h₃ => ?_) fun _ _ h => h
    refine wp_ite (fun _ => h₃.unfinished) fun _ => wp_ite (fun _ => ?_) fun _ => ?_
    · rw [wp_bind, wp_withSelf]
      exact wp_mono (finish_underway hC (s := ⟨writer, w₃⟩) h₃) (fun _ _ _ => trivial)
        fun _ _ h => h.unfinished
    · rw [wp_bind, wp_withSelf]
      exact wp_mono (writePlaintext_underway hC data (s := ⟨writer, w₃⟩) h₃) (fun _ _ h => ih h)
        fun _ _ h => h.unfinished

variable (A C sink sha256) in
def useNewWriter (context : BackupObjectContextV1) (random : Option NoncePrefix)
    (calls : List WriterCall) : Call σ (Option BackupObjectDescriptor) := do
  let writer ← BackupObjectWriterV1.new C sink context random
  return (← withSelf writer (useWriter A C sink sha256 calls)).1

variable (A sink sha256 context) in
theorem useNewWriter_unfinished (hC : C.StopsAtFailure) (random : Option NoncePrefix)
    (calls : List WriterCall) {w : World (σ × Bytes)} (h : w.taken = []) :
    wp (useNewWriter A C sink.recorded sha256 context random calls) w
      (fun descriptor w' => descriptor = none → Unfinished A w'.taken)
      fun _ w' => Unfinished A w'.taken := by
  rw [useNewWriter, wp_bind]
  refine wp_mono (new_underway random h) (fun writer w₁ h₁ => ?_) fun _ _ h => h
  rw [wp_bind, wp_withSelf]
  exact useWriter_underway hC calls (s := ⟨writer, w₁⟩) h₁

variable (A sink source sha256 context) in
theorem sealObjectV1_unfinished (hC : C.StopsAtFailure) (random : Option NoncePrefix)
    {w : World (σ × Bytes)} (h : w.taken = []) :
    wp (sealObjectV1 A C sha256 source.recorded sink.recorded context random) w (fun _ _ => True)
      fun _ w' => Unfinished A w'.taken := by
  have hcancelled : wp source.recorded.cancelled w (fun _ w' => w'.taken = [])
      fun _ w' => Unfinished A w'.taken := h
  rw [sealObjectV1, wp_bind]
  refine wp_mono hcancelled (fun _ w₁ h₁ => ?_) fun _ _ h => h
  refine wp_ite (fun _ => ?_) fun _ => ?_
  · show Unfinished A w₁.taken
    rw [h₁]
    exact unfinished_nil
  rw [wp_bind]
  exact wp_mono (new_underway random h₁) (fun _ _ h₂ => sealLoop_unfinished hC _ h₂) fun _ _ h => h

end object

/-! ## Nothing to open -/

/-- No reader accepts `b`: whatever decoder, context, source that serves `b`, and sink. -/
def NeverOpened (A : StreamAead) (b : Bytes) : Prop :=
  ∀ (δ τ : Type) (R : RawDecoder δ) (context : BackupObjectContextV1) (source : BackupByteSource τ)
    (sink : BackupByteSink τ) (Rest : τ → Bytes → Prop) (s : τ), Serves source sink Rest →
    Rest s b → outcome ((openObjectV1 A R source sink context).run
      { foreign := s, delivered := [] }) ≠ .ok ()

theorem Unfinished.neverOpened {A : StreamAead} (hideal : NextNeverLast A) {b : Bytes}
    (h : Unfinished A b) : NeverOpened A b := by
  intro δ τ R context source sink Rest s hserves hR hok
  obtain ⟨u, w, hrun⟩ := exists_of_isOk (by rw [hok]; rfl)
  exact h.not_enveloped hideal ((wp_of_ok hrun).mp (openObjectV1_enveloped hserves A R context hR))

/-- **No descriptor, no object**: what the sink took is not opened, whether sealing an object ended
in an error or a writer was used, failed, aborted or dropped without giving a descriptor. -/
theorem neverOpened_of_no_descriptor (A : StreamAead) (hideal : NextNeverLast A) (C : Compressor κ)
    (hC : C.StopsAtFailure) (sha256 : Bytes → Bytes) (source : BackupByteSource σ)
    (sink : BackupByteSink σ) (context : BackupObjectContextV1) (random : Option NoncePrefix)
    (s : σ) (calls : List WriterCall) :
    let w : World (σ × Bytes) := { foreign := (s, []), delivered := [] }
    let sealing := (sealObjectV1 A C sha256 source.recorded sink.recorded context random).run w
    let writing := (useNewWriter A C sink.recorded sha256 context random calls).run w
    ((∀ descriptor, outcome sealing ≠ .ok descriptor) → NeverOpened A (final sealing).taken) ∧
      ((∀ descriptor, outcome writing ≠ .ok (some descriptor)) →
        NeverOpened A (final writing).taken) := by
  intro w sealing writing
  refine ⟨fun hnone => ?_, fun hnone => ?_⟩
  · have hseal := sealObjectV1_unfinished A sink source sha256 context hC random (w := w) rfl
    cases hrun : sealing with
    | ok descriptor w' =>
      rw [hrun] at hnone
      exact absurd rfl (hnone descriptor)
    | error e w' => exact ((wp_of_error hrun).mp hseal).neverOpened hideal
  · have huse := useNewWriter_unfinished A sink sha256 context hC random calls (w := w) rfl
    cases hrun : writing with
    | ok descriptor w' =>
      rw [hrun] at hnone
      cases descriptor with
      | none => exact ((wp_of_ok hrun).mp huse rfl).neverOpened hideal
      | some descriptor => exact absurd rfl (hnone descriptor)
    | error e w' => exact ((wp_of_error hrun).mp huse).neverOpened hideal

/-- The AEAD whose tag is the flag of the last block, sixteen times. -/
def flagAead : StreamAead where
  encrypt _ _ _ last _ msg := some (msg ++ List.replicate tagBytes (if last then 1 else 0))
  decrypt _ _ _ last _ ct :=
    let msg := ct.take (ct.length - tagBytes)
    if ct = msg ++ List.replicate tagBytes (if last then 1 else 0) then some msg else none
  encrypt_length h := by
    cases h
    simp
  decrypt_length h := by
    obtain ⟨hct, hmsg⟩ := Option.ite_none_right_eq_some.mp h
    cases hmsg
    rw [hct]
    simp

theorem flagAead_nextNeverLast : NextNeverLast flagAead := by
  intro key nonce i aad msg ct h key' nonce' i' aad'
  cases h
  refine if_neg fun heq => ?_
  have := congrArg List.getLast? heq
  simp [tagBytes] at this

/-- The sink that takes `s` more chunks. -/
def fullSink : BackupByteSink ℕ where
  writeChunk _ := do
    let s ← get
    if s = 0 then
      throw .ioError
    set (s - 1)

/-- The source without bytes beside it. -/
def emptySource : BackupByteSource ℕ where
  readChunk _ := pure []
  isCancelled s := (false, s)

/-- The sink takes the header and the length of the only frame, not the frame's ciphertext. -/
theorem neverOpened_of_no_descriptor_full :
    let w : World (ℕ × Bytes) := { foreign := (2, []), delivered := [] }
    NeverOpened flagAead (final ((sealObjectV1 flagAead storedCompressor id emptySource.recorded
        fullSink.recorded default (some default)).run w)).taken ∧
      NeverOpened flagAead (final ((useNewWriter flagAead storedCompressor fullSink.recorded id
        default (some default) [.writePlaintext [7, 8, 9], .finish, .abort]).run w)).taken := by
  have h := neverOpened_of_no_descriptor flagAead flagAead_nextNeverLast storedCompressor
    storedCompressor_stopsAtFailure id emptySource fullSink default (some default) 2
    [.writePlaintext [7, 8, 9], .finish, .abort]
  refine ⟨h.1 fun descriptor hok => ?_, h.2 fun descriptor hok => ?_⟩
  · have hfail : (outcome ((sealObjectV1 flagAead storedCompressor id emptySource.recorded
        fullSink.recorded default (some default)).run { foreign := (2, []), delivered := [] })).isOk =
        false := by decide +kernel
    rw [hok] at hfail
    cases hfail
  · have hnone : outcome ((useNewWriter flagAead storedCompressor fullSink.recorded id default
        (some default) [.writePlaintext [7, 8, 9], .finish, .abort]).run
        { foreign := (2, []), delivered := [] }) = .ok none := by decide +kernel
    rw [hok] at hnone
    cases hnone

end KChat.Backup
