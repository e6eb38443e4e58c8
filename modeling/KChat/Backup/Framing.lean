import KChat.Backup.Writer

/-!
# The writer's framing and its reference

* `nextCiphertexts`, `envelopeV1`: the bytes of an envelope as a function of the compressed stream.
* `Kept`: size, hash and the chunks passed to the sink agree; `Framed s c n`: of the stream `c` the
  first `n` blocks have been framed and the rest is pending.
* Step lemmas: `writeEnvelopeBytes_kept`, `writeEncryptedBlock_kept`, `drain_framed`,
  `write_framed`; run lemma: **`writesAll_framed`**.
* **`envelopeWriter_refines`**: the sink gets the reference envelope of all that was written.
-/

namespace KChat.Backup

open Lib

variable {σ : Type}

/-! ## The reference -/

section reference

variable (A : StreamAead) (context : BackupObjectContextV1) (noncePrefix : NoncePrefix)

/-- The first `n` full blocks of the compressed stream `c`, encrypted with counters `0, …, n - 1`. -/
def nextCiphertexts (c : Bytes) (n : ℕ) : Option (List Bytes) :=
  (List.range n).mapM fun i => A.encrypt context.objectKey noncePrefix i false
    context.canonicalBytes (block compressedBlockBytes c i)

/-- **The envelope of the compressed stream `c`**: the header, a frame for every full block, and one
last frame with the remainder. -/
def envelopeV1 (c : Bytes) : Option Bytes := do
  let next ← nextCiphertexts A context noncePrefix c (c.length / compressedBlockBytes)
  let rest := blockRest compressedBlockBytes c
  let last ← A.encrypt context.objectKey noncePrefix (c.length / compressedBlockBytes) true
    context.canonicalBytes rest
  return serializeHeader noncePrefix ++ (next.map (toBE 4 65552 ++ ·)).flatten ++
    (toBE 4 (rest.length + 16) ++ last)

variable {A context noncePrefix}

theorem nextCiphertexts_succ (c : Bytes) (n : ℕ) : nextCiphertexts A context noncePrefix c (n + 1) =
    (nextCiphertexts A context noncePrefix c n).bind fun cts =>
      (A.encrypt context.objectKey noncePrefix n false context.canonicalBytes
        (block compressedBlockBytes c n)).map fun ct => cts ++ [ct] := by
  simp [nextCiphertexts, List.range_succ, Option.map_eq_bind, Option.bind_assoc]

theorem nextCiphertexts_append {c : Bytes} {n : ℕ} (h : compressedBlockBytes * n ≤ c.length)
    (bytes : Bytes) : nextCiphertexts A context noncePrefix (c ++ bytes) n =
      nextCiphertexts A context noncePrefix c n := by
  induction n with
  | zero => rfl
  | succ n ih =>
    have hle : compressedBlockBytes * n ≤ c.length := le_trans (Nat.mul_le_mul_left _ n.le_succ) h
    rw [nextCiphertexts_succ, nextCiphertexts_succ, ih hle, block_append h]

/-- Every full block is encrypted to the same length. -/
theorem nextCiphertexts_length {c : Bytes} {n : ℕ} (h : n ≤ c.length / compressedBlockBytes)
    {cts : List Bytes} (hcts : nextCiphertexts A context noncePrefix c n = some cts) :
    ∀ ct ∈ cts, ct.length = compressedBlockBytes + aeadTagBytes := by
  induction n generalizing cts with
  | zero =>
    cases hcts
    simp
  | succ n ih =>
    rw [nextCiphertexts_succ] at hcts
    obtain ⟨cts', hcts', hmap⟩ := Option.bind_eq_some_iff.mp hcts
    obtain ⟨ct, hct, rfl⟩ := Option.map_eq_some_iff.mp hmap
    intro ct' hmem
    rcases List.mem_append.mp hmem with hmem | hmem
    · exact ih (by omega) hcts' ct' hmem
    · rw [List.mem_singleton.mp hmem, A.encrypt_length hct, block_length h]
      rfl

/-- The reference in terms of the frames the writer emits. -/
theorem envelopeV1_eq_some {c last : Bytes} {cts : List Bytes}
    (hcts : nextCiphertexts A context noncePrefix c (c.length / compressedBlockBytes) = some cts)
    (hlast : A.encrypt context.objectKey noncePrefix (c.length / compressedBlockBytes) true
      context.canonicalBytes (blockRest compressedBlockBytes c) = some last) :
    envelopeV1 A context noncePrefix c =
      some (serializeHeader noncePrefix ++ (cts.map frameOf).flatten ++ frameOf last) := by
  have hnext : cts.map (toBE 4 65552 ++ ·) = cts.map frameOf := by
    refine List.map_congr_left fun ct hct => ?_
    rw [frameOf, nextCiphertexts_length le_rfl hcts ct hct]
    rfl
  simp only [envelopeV1, hcts, hlast, Option.bind_eq_bind, Option.bind_some, hnext]
  rw [frameOf, A.encrypt_length hlast]
  rfl

theorem exists_of_envelopeV1 {c b : Bytes} (h : envelopeV1 A context noncePrefix c = some b) :
    ∃ cts last,
      nextCiphertexts A context noncePrefix c (c.length / compressedBlockBytes) = some cts ∧
      A.encrypt context.objectKey noncePrefix (c.length / compressedBlockBytes) true
        context.canonicalBytes (blockRest compressedBlockBytes c) = some last ∧
      b = serializeHeader noncePrefix ++ (cts.map frameOf).flatten ++ frameOf last := by
  obtain ⟨cts, hcts, h'⟩ := Option.bind_eq_some_iff.mp h
  obtain ⟨last, hlast, -⟩ := Option.bind_eq_some_iff.mp h'
  rw [envelopeV1_eq_some hcts hlast] at h
  exact ⟨cts, last, hcts, hlast, (Option.some.inj h).symm⟩

end reference

/-! ## What one operation does -/

section steps

open EnvelopeWriter

variable {A : StreamAead} {sink : BackupByteSink σ} {J : σ → Prop} {delivered : List Bytes}

/-- The sink does not disturb `J`. -/
def Harmless (J : σ → Prop) (sink : BackupByteSink σ) : Prop :=
  ∀ chunk s, J s → wp (sink.writeChunk chunk) s (fun _ => J) fun _ => J

/-- The chunks passed to the sink since `delivered` are bounded and make up what the hash has
absorbed and the size counts. -/
structure Kept (J : σ → Prop) (delivered : List Bytes) (s : Owning EnvelopeWriter (World σ)) :
    Prop where
  chunks : ∃ out, s.world.delivered = delivered ++ out ∧ out.flatten = s.self.hash ∧
    ∀ chunk ∈ out, 1 ≤ chunk.length ∧ chunk.length ≤ maxIoChunkBytesV1
  size : s.self.ciphertextBytes = s.self.hash.length
  le : s.self.ciphertextBytes ≤ maxCiphertextObjectBytesV1
  foreign : J s.world.foreign

theorem write_delivered (hsink : Harmless J sink) {w : World σ} (hw : J w.foreign) (chunk : Bytes) :
    wp (sink.write chunk) w
      (fun _ w' => w'.delivered = w.delivered ++ [chunk] ∧ J w'.foreign) fun _ _ => True := by
  rw [BackupByteSink.write, wp_bind, wp_modify, onForeign, wp_zoom]
  exact wp_mono (hsink chunk w.foreign hw) (fun _ _ h => ⟨rfl, h⟩) fun _ _ _ => trivial

theorem writeEnvelopeBytes_kept (hsink : Harmless J sink) {s : Owning EnvelopeWriter (World σ)}
    (h : Kept J delivered s) (bytes : Bytes) : wp (writeEnvelopeBytes sink bytes) s
      (fun _ s' => Kept J delivered s' ∧ s'.self =
        { s.self with
          ciphertextBytes := s.self.ciphertextBytes + bytes.length, hash := s.self.hash ++ bytes })
      fun _ _ => True := by
  obtain ⟨⟨out, hout, hflat, hbound⟩, hsize, -, hJ⟩ := h
  simp only [writeEnvelopeBytes, wp_bind, wp_getSelf, wp_modifySelf]
  refine wp_ofResult (fun total htotal => ?_) fun _ _ => trivial
  obtain ⟨rfl, hlim⟩ := checkedAddLimited_eq_ok htotal
  have hpos : 0 < maxIoChunkBytesV1 := by decide
  -- the loop invariant: the chunks gone through have been passed to the sink
  refine wp_mono (wp_forM (fun done t => t.world.delivered = s.world.delivered ++ done ∧
    J t.world.foreign ∧ t.self = { s.self with
      ciphertextBytes := s.self.ciphertextBytes + bytes.length, hash := s.self.hash ++ bytes })
    _ (fun done chunk t _ ht => ?_) ⟨by simp, hJ, rfl⟩) (fun _ t ht => ?_) fun _ _ h => h
  · rw [wp_onWorld]
    refine wp_mono (write_delivered hsink ht.2.1 chunk) (fun _ w hw => ⟨?_, hw.2, ht.2.2⟩)
      fun _ _ h => h
    rw [hw.1, ht.1, List.append_assoc]
  · obtain ⟨hdel, hJ', hself⟩ := ht
    refine ⟨⟨⟨out ++ chunks maxIoChunkBytesV1 bytes, ?_, ?_, ?_⟩, ?_, ?_, hJ'⟩, hself⟩
    · rw [hdel, hout, List.append_assoc]
    · rw [List.flatten_append, hflat, chunks_flatten hpos, hself]
    · intro chunk hchunk
      rcases List.mem_append.mp hchunk with hchunk | hchunk
      · exact hbound chunk hchunk
      · exact mem_chunks hpos hchunk
    · rw [hself, List.length_append, hsize]
    · rw [hself]
      exact hlim

theorem writeEncryptedBlock_kept (hsink : Harmless J sink) {s : Owning EnvelopeWriter (World σ)}
    (h : Kept J delivered s) (ct : Bytes) : wp (writeEncryptedBlock sink ct) s
      (fun _ s' => Kept J delivered s' ∧ s'.self =
        { s.self with
          ciphertextBytes := s.self.ciphertextBytes + (frameOf ct).length
          hash := s.self.hash ++ frameOf ct
          blockCount := s.self.blockCount + 1 })
      fun _ _ => True := by
  unfold writeEncryptedBlock
  refine wp_ite (fun _ => trivial) fun hsmall => ?_
  simp only [wp_bind, wp_getSelf]
  refine wp_ofResult (fun total htotal => ?_) fun _ _ => trivial
  obtain ⟨rfl, -⟩ := checkedAddLimited_eq_ok htotal
  rw [wp_modifySelf]
  refine wp_ite (fun _ => trivial) fun _ => ?_
  simp only [wp_bind]
  have h₁ : Kept J delivered
      { s with self := { s.self with blockCount := s.self.blockCount + 1 } } :=
    ⟨h.chunks, h.size, h.le, h.foreign⟩
  refine wp_mono (writeEnvelopeBytes_kept hsink h₁ _) (fun _ s₂ h₂ => ?_) fun _ _ h => h
  refine wp_mono (writeEnvelopeBytes_kept hsink h₂.1 _) (fun _ s₃ h₃ => ⟨h₃.1, ?_⟩) fun _ _ h => h
  rw [h₃.2, h₂.2, frameOf, List.length_append, add_assoc, List.append_assoc]

variable {context : BackupObjectContextV1} {noncePrefix : NoncePrefix}

/-- **Of the compressed stream `c` the first `n` blocks are framed** and the rest is pending; block
counter and STREAM counter stand at `n`. -/
structure Framed (A : StreamAead) (context : BackupObjectContextV1) (noncePrefix : NoncePrefix)
    (J : σ → Prop) (delivered : List Bytes) (c : Bytes) (n : ℕ)
    (s : Owning EnvelopeWriter (World σ)) : Prop extends Kept J delivered s where
  full : compressedBlockBytes * n ≤ c.length
  encryptor : s.self.encryptor =
    some { key := context.objectKey, nonce := noncePrefix, position := n }
  canonicalContext : s.self.canonicalContext = context.canonicalBytes
  pending : s.self.pending = c.drop (compressedBlockBytes * n)
  blockCount : s.self.blockCount = n
  hash : ∃ cts, nextCiphertexts A context noncePrefix c n = some cts ∧
    s.self.hash = serializeHeader noncePrefix ++ (cts.map frameOf).flatten

theorem drain_framed (hsink : Harmless J sink) (c pending : Bytes) (n : ℕ)
    (s : Owning EnvelopeWriter (World σ))
    (h : Framed A context noncePrefix J delivered c n s) (hp : s.self.pending = pending) :
    wp (drain A sink pending) s (fun _ s' => Framed A context noncePrefix J delivered c
      (c.length / compressedBlockBytes) s') fun _ _ => True := by
  have hB : 0 < compressedBlockBytes := by decide
  induction pending using block_induction hB generalizing n s with
  | short pending hlt =>
    rw [drain, dif_neg (by omega), wp_pure]
    have hn : c.length / compressedBlockBytes = n := by
      rw [← hp, h.pending, List.length_drop] at hlt
      refine Nat.div_eq_of_lt_le (by rw [mul_comm]; exact h.full) ?_
      rw [add_mul, one_mul, mul_comm]
      omega
    rwa [hn]
  | step b rest hb ih =>
    rw [drain, dif_pos (by rw [List.length_append]; omega)]
    simp only [List.take_left' hb, List.drop_left' hb, wp_bind, wp_modifySelf, wp_getSelf]
    refine wp_orThrow (fun e he => ?_) fun _ => trivial
    refine wp_orThrow (fun r hr => ?_) fun _ => trivial
    obtain rfl : _ = e := Option.some.inj (h.encryptor.symm.trans he)
    obtain ⟨hct, henc⟩ := StreamEncryptor.encryptNext_eq_some hr
    rw [h.canonicalContext] at hct
    have hc := h.pending.symm.trans hp
    have hfull : compressedBlockBytes * (n + 1) ≤ c.length := by
      have := congrArg List.length hc
      rw [List.length_drop, List.length_append] at this
      rw [mul_add, mul_one]
      omega
    have hblock : block compressedBlockBytes c n = b := by
      rw [block, hc, List.take_left' hb]
    obtain ⟨cts, hcts, hhash⟩ := h.hash
    have hkept : Kept J delivered
        { s with self := { s.self with pending := rest, encryptor := some r.2 } } :=
      ⟨h.chunks, h.size, h.le, h.foreign⟩
    -- one more block is framed, and the loop goes on with what is left
    refine wp_mono (writeEncryptedBlock_kept hsink hkept r.1) (fun _ t ht => ?_) fun _ _ h => h
    obtain ⟨hkept', hself⟩ := ht
    refine ih (n + 1) t ⟨hkept', hfull, ?_, ?_, ?_, ?_, ?_⟩ ?_
    · rw [hself, henc]
    · rw [hself]
      exact h.canonicalContext
    · rw [hself, mul_add, mul_one, ← List.drop_drop, hc, List.drop_left' hb]
    · rw [hself, h.blockCount]
    · refine ⟨cts ++ [r.1], ?_, ?_⟩
      · rw [nextCiphertexts_succ, hcts, hblock, Option.bind_some, hct, Option.map_some]
      · rw [hself, hhash]
        simp
    · rw [hself]

variable (A sink context noncePrefix) in
theorem new_framed (hsink : Harmless J sink) (w : World σ) (hw : J w.foreign) :
    wp (EnvelopeWriter.new sink context noncePrefix) w
    (fun envelope w' => Framed A context noncePrefix J w.delivered [] 0 ⟨envelope, w'⟩)
    fun _ _ => True := by
  simp only [EnvelopeWriter.new, wp_bind, wp_withSelf, wp_pure]
  refine wp_mono (writeEnvelopeBytes_kept hsink
    (show Kept J w.delivered _ from ⟨⟨[], by simp⟩, rfl, Nat.zero_le _, hw⟩) _)
    (fun _ s h => ?_) fun _ _ h => h
  obtain ⟨hkept, hself⟩ := h
  refine ⟨hkept, le_rfl, ?_, ?_, ?_, ?_, [], rfl, ?_⟩ <;> rw [hself]
  · rfl
  · simp

theorem write_framed (hsink : Harmless J sink) {c bytes : Bytes} {s s' : Owning EnvelopeWriter (World σ)}
    (h : Framed A context noncePrefix J delivered c (c.length / compressedBlockBytes) s)
    (hw : EnvelopeWriter.write A sink bytes s = (true, s')) :
    Framed A context noncePrefix J delivered (c ++ bytes)
      ((c ++ bytes).length / compressedBlockBytes) s' := by
  have hwp : wp (writeCompressed A sink bytes) s (fun _ t => Framed A context noncePrefix J delivered
      (c ++ bytes) ((c ++ bytes).length / compressedBlockBytes) t) fun _ _ => True := by
    simp only [writeCompressed, wp_bind, wp_getSelf, wp_modifySelf]
    refine wp_ofResult (fun total _ => ?_) fun _ _ => trivial
    refine drain_framed hsink (c ++ bytes) _ (c.length / compressedBlockBytes) _
      ⟨⟨h.chunks, h.size, h.le, h.foreign⟩, ?_, h.encryptor, h.canonicalContext, ?_, h.blockCount, ?_⟩ rfl
    · rw [List.length_append]
      exact h.full.trans (Nat.le_add_right _ _)
    · rw [h.pending, List.drop_append_of_le_length h.full]
    · rw [nextCiphertexts_append h.full]
      exact h.hash
  rw [EnvelopeWriter.write] at hw
  cases hx : (writeCompressed A sink bytes).run s with
  | ok u t =>
    rw [hx] at hw
    cases hw
    exact (wp_of_ok hx).mp hwp
  | error e t =>
    rw [hx] at hw
    cases hw

/-- **Any sequence of writes**: all that was written is framed, up to less than a block. -/
theorem writesAll_framed (hsink : Harmless J sink) {c : Bytes} {slices : List Bytes}
    {s s' : Owning EnvelopeWriter (World σ)}
    (h : Framed A context noncePrefix J delivered c (c.length / compressedBlockBytes) s)
    (hw : writesAll (EnvelopeWriter.write A sink) slices s = some s') :
    Framed A context noncePrefix J delivered (c ++ slices.flatten)
      ((c ++ slices.flatten).length / compressedBlockBytes) s' := by
  induction slices generalizing c s with
  | nil =>
    cases hw
    rwa [List.flatten_nil, List.append_nil]
  | cons slice slices ih =>
    rw [writesAll] at hw
    split_ifs at hw with hok
    have := ih (write_framed hsink h (Prod.ext hok rfl)) hw
    rwa [List.flatten_cons, ← List.append_assoc]

theorem Framed.pending_length_lt {c : Bytes} {s : Owning EnvelopeWriter (World σ)}
    (h : Framed A context noncePrefix J delivered c (c.length / compressedBlockBytes) s) :
    s.self.pending.length < compressedBlockBytes := by
  rw [h.pending]
  exact blockRest_length_lt (by decide) c

theorem finish_kept (hsink : Harmless J sink) (sha256 : Bytes → Bytes) {c : Bytes}
    {s : Owning EnvelopeWriter (World σ)}
    (h : Framed A context noncePrefix J delivered c (c.length / compressedBlockBytes) s) :
    wp (EnvelopeWriter.finish A sha256 sink) s (fun descriptor s' => Kept J delivered s' ∧
        envelopeV1 A context noncePrefix c = some s'.self.hash ∧
        descriptor.ciphertextSize = s'.self.ciphertextBytes ∧
        descriptor.ciphertextSha256 = sha256 s'.self.hash)
      fun _ _ => True := by
  simp only [EnvelopeWriter.finish, wp_bind, wp_getSelf, wp_modifySelf, wp_pure]
  refine wp_orThrow (fun e he => ?_) fun _ => trivial
  obtain rfl : _ = e := Option.some.inj (h.encryptor.symm.trans he)
  refine wp_orThrow (fun last hlast => ?_) fun _ => trivial
  have hkept : Kept J delivered
      { s with self := { s.self with encryptor := none, pending := [] } } :=
    ⟨h.chunks, h.size, h.le, h.foreign⟩
  refine wp_mono (writeEncryptedBlock_kept hsink hkept last) (fun _ t ht => ?_) fun _ _ h => h
  obtain ⟨hkept', hself⟩ := ht
  refine ⟨hkept', ?_, trivial, trivial⟩
  rw [h.canonicalContext, h.pending] at hlast
  obtain ⟨cts, hcts, hhash⟩ := h.hash
  rw [hself, hhash]
  exact envelopeV1_eq_some hcts hlast

end steps

/-- **The writer's framing refines its reference.** -/
theorem envelopeWriter_refines (A : StreamAead) (sha256 : Bytes → Bytes) (sink : BackupByteSink σ)
    (context : BackupObjectContextV1) (noncePrefix : NoncePrefix) {slices : List Bytes}
    {w w₀ : World σ} {envelope : EnvelopeWriter} {s s' : Owning EnvelopeWriter (World σ)}
    {descriptor : BackupObjectDescriptor}
    (hnew : (EnvelopeWriter.new sink context noncePrefix).run w = .ok envelope w₀)
    (hwrites : writesAll (EnvelopeWriter.write A sink) slices ⟨envelope, w₀⟩ = some s)
    (hfinish : (EnvelopeWriter.finish A sha256 sink).run s = .ok descriptor s') :
    (∃ bytes out, envelopeV1 A context noncePrefix slices.flatten = some bytes ∧
      s'.world.delivered = w.delivered ++ out ∧ out.flatten = bytes ∧
      (∀ chunk ∈ out, 1 ≤ chunk.length ∧ chunk.length ≤ 65536) ∧
      descriptor.ciphertextSize = bytes.length ∧ descriptor.ciphertextSha256 = sha256 bytes) ∧
    ∀ front t, front <+: slices →
      writesAll (EnvelopeWriter.write A sink) front ⟨envelope, w₀⟩ = some t →
      t.self.pending.length < 65536 := by
  have hsink : Harmless (fun _ => True) sink := fun chunk s _ => by
    unfold wp
    split <;> trivial
  have h₀ := (wp_of_ok hnew).mp (new_framed A sink context noncePrefix hsink w trivial)
  constructor
  · have h := writesAll_framed hsink h₀ hwrites
    obtain ⟨hkept, henv, hsize, hsha⟩ := (wp_of_ok hfinish).mp (finish_kept hsink sha256 h)
    obtain ⟨out, hout, hflat, hbound⟩ := hkept.chunks
    refine ⟨_, out, henv, hout, hflat, hbound, ?_, hsha⟩
    rw [hsize, hkept.size]
  · intro front t _ ht
    exact (writesAll_framed hsink h₀ ht).pending_length_lt

/-- Three bytes in two slices. -/
theorem envelopeWriter_refines_two_slices :
    ∃ (envelope : EnvelopeWriter) (w₀ : World Bytes) (s s' : Owning EnvelopeWriter (World Bytes))
      (descriptor : BackupObjectDescriptor),
      (EnvelopeWriter.new memorySink default default).run { foreign := [], delivered := [] } =
        .ok envelope w₀ ∧
      writesAll (EnvelopeWriter.write (taggedAead fun _ _ _ _ => true) memorySink) [[1], [2, 3]]
        ⟨envelope, w₀⟩ = some s ∧
      (EnvelopeWriter.finish (taggedAead fun _ _ _ _ => true) (fun _ => List.replicate 32 0)
        memorySink).run s = .ok descriptor s' ∧
      ∃ bytes out, envelopeV1 (taggedAead fun _ _ _ _ => true) default default [1, 2, 3] =
        some bytes ∧ s'.world.delivered = out ∧ out.flatten = bytes := by
  have hok : (match (EnvelopeWriter.new memorySink default default).run
      ({ foreign := [], delivered := [] } : World Bytes) with
    | .ok envelope w₀ =>
      (writesAll (EnvelopeWriter.write (taggedAead fun _ _ _ _ => true) memorySink) [[1], [2, 3]]
        ⟨envelope, w₀⟩).any fun s => (outcome ((EnvelopeWriter.finish
          (taggedAead fun _ _ _ _ => true) (fun _ => List.replicate 32 0) memorySink).run s)).isOk
    | .error _ _ => false) = true := by
    decide +kernel
  split at hok
  · rename_i envelope w₀ hnew
    obtain ⟨s, hwrites, hfin⟩ := (Option.any_eq_true _ _).mp hok
    obtain ⟨descriptor, s', hfinish⟩ := exists_of_isOk hfin
    obtain ⟨⟨bytes, out, henv, hout, hflat, -⟩, -⟩ :=
      envelopeWriter_refines _ _ memorySink default default hnew hwrites hfinish
    exact ⟨envelope, w₀, s, s', descriptor, hnew, hwrites, hfinish, bytes, out, henv, hout, hflat⟩
  · cases hok

end KChat.Backup
