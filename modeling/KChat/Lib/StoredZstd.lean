import KChat.Lib.Zstd

/-!
# Zstd frames that store their content

The frames of RFC 8878 with a single segment and one raw block, for contents of fewer than 256
bytes, with an encoder that emits them and a decoder that reads them byte by byte.

* `stored p`, `storedFrame`; `storedFrame_eq_some`, **`storedFrame_selfDelimiting`**.
* `storedCompressor`, **`storedCompressor_encodes`**.
* `storedDecoder`, `StoredState`, **`storedDecoder_sound`**, **`storedDecoder_live`**.
-/

namespace Lib

/-! ## The frames -/

/-- Magic, descriptor of a single segment, content size, header of a last raw block, content. -/
def stored (p : Bytes) : Bytes :=
  0x28 :: 0xb5 :: 0x2f :: 0xfd :: 0x20 :: UInt8.ofNat p.length ::
    UInt8.ofNat ((8 * p.length + 1) % 256) :: UInt8.ofNat ((8 * p.length + 1) / 256) :: 0 :: p

/-- The content of a stored frame. -/
def storedFrame (c : Bytes) : Option Bytes :=
  if (c.drop 9).length < 256 ∧ c = stored (c.drop 9) then some (c.drop 9) else none

theorem storedFrame_eq_some {c p : Bytes} :
    storedFrame c = some p ↔ p.length < 256 ∧ c = stored p := by
  unfold storedFrame
  constructor
  · intro h
    split_ifs at h with hc
    cases h
    exact hc
  · rintro ⟨hlen, rfl⟩
    exact if_pos ⟨hlen, rfl⟩

theorem stored_length (p : Bytes) : (stored p).length = 9 + p.length := by
  simp only [stored, List.length_cons]
  omega

/-- **No stored frame continues another**: the size is in the header. -/
theorem storedFrame_selfDelimiting : SelfDelimiting storedFrame := by
  intro c c' p p' h h' hp
  obtain ⟨hlen, rfl⟩ := storedFrame_eq_some.mp h
  obtain ⟨hlen', rfl⟩ := storedFrame_eq_some.mp h'
  refine hp.eq_of_length ?_
  have hsize : UInt8.ofNat p'.length = UInt8.ofNat p.length := by
    simp only [stored, List.cons_prefix_cons] at hp
    exact hp.2.2.2.2.2.1
  have := congrArg UInt8.toNat hsize
  rw [UInt8.toNat_ofNat', UInt8.toNat_ofNat'] at this
  rw [stored_length, stored_length]
  omega

/-! ## The encoder -/

/-- The encoder collects its input and hands over the frame at the end. -/
def storedCompressor : Compressor Bytes where
  new _ := some []
  writeAll k bytes := .ret true (k ++ bytes)
  tryFinish k :=
    if k.length < 256 then .write (stored k) fun ok => .ret ok k else .ret false k

theorem storedCompressor_written (k : Bytes) (pieces : List Bytes) :
    storedCompressor.written k pieces = some (k ++ pieces.flatten, []) := by
  induction pieces generalizing k with
  | nil => simp [Compressor.written]
  | cons piece pieces ih =>
    have hstep : (storedCompressor.writeAll k piece).accepted = (true, k ++ piece, []) := rfl
    rw [Compressor.written, hstep, if_pos rfl, ih]
    simp

theorem storedCompressor_stream {k c : Bytes} {pieces : List Bytes}
    (h : storedCompressor.stream k pieces = some c) :
    (k ++ pieces.flatten).length < 256 ∧ c = stored (k ++ pieces.flatten) := by
  rw [Compressor.stream, storedCompressor_written, Option.bind_some] at h
  by_cases hlen : (k ++ pieces.flatten).length < 256
  · simp only [storedCompressor, if_pos hlen, Drive.accepted, if_true] at h
    exact ⟨hlen, by simpa using h.symm⟩
  · simp only [storedCompressor, if_neg hlen, Drive.accepted] at h
    cases h

theorem stored_header {p : Bytes} (h : p.length < 256) : FrameHeader.parse (stored p) =
    some { length := 6, dictionaryIdFlag := 0, reservedBit := 0, unusedBit := 0,
           windowSize := p.length, contentSize := some p.length } := by
  have hsize : FrameHeader.contentSizeOf [UInt8.ofNat p.length] = p.length := by
    simp [FrameHeader.contentSizeOf, ofLE, Nat.mod_eq_of_lt h]
  have hk : FrameHeader.contentSizeBytes 0x20 = 1 := by decide
  have hn : FrameHeader.dictionaryIdBytes 0x20 = 0 := by decide
  simp [stored, FrameHeader.parse, FrameHeader.singleSegment, FrameHeader.ofFields, hk, hn, hsize]

theorem storedCompressor_encodes (level : ℕ) {windowLog : ℕ} (hlog : 8 ≤ windowLog) :
    storedCompressor.Encodes storedFrame level windowLog where
  writeAll_failsFast _ _ := trivial
  tryFinish_failsFast k := by
    simp only [storedCompressor]
    split_ifs
    · exact ⟨⟨k, rfl⟩, trivial⟩
    · trivial
  content hk h := by
    cases hk
    obtain ⟨hlen, rfl⟩ := storedCompressor_stream h
    exact storedFrame_eq_some.mpr ⟨hlen, rfl⟩
  header hk h := by
    cases hk
    obtain ⟨hlen, rfl⟩ := storedCompressor_stream h
    refine ⟨_, stored_header hlen, rfl, rfl, rfl, ?_, fun n hn => (Option.some.inj hn).symm⟩
    have : 2 ^ 8 ≤ 2 ^ windowLog := Nat.pow_le_pow_right (by norm_num) hlog
    exact (Nat.le_of_lt hlen).trans (le_trans (by norm_num) this)

theorem storedCompressor_stopsAtFailure : storedCompressor.StopsAtFailure :=
  have h := storedCompressor_encodes 0 le_rfl
  ⟨h.writeAll_failsFast, h.tryFinish_failsFast⟩

/-! ## The decoder -/

/-- What was consumed, and what is left to be written once the frame is complete. -/
structure StoredState where
  fed : Bytes
  todo : Option Bytes

/-- The decoder consumes its input byte by byte, and writes when the frame is complete. -/
def storedDecoder : RawDecoder StoredState where
  new := some { fed := [], todo := none }
  setWindowLogMax d _ := some d
  runOnBuffers d input capacity :=
    match d.todo, input with
    | some q, _ =>
      some { decoder := { d with todo := some (q.drop capacity) }, bytesRead := 0
             written := q.take capacity, remaining := (q.drop capacity).length }
    | none, [] => some { decoder := d, bytesRead := 0, written := [], remaining := 1 }
    | none, x :: _ =>
      match storedFrame (d.fed ++ [x]) with
      | none =>
        some { decoder := { fed := d.fed ++ [x], todo := none }, bytesRead := 1, written := []
               remaining := 1 }
      | some p =>
        some { decoder := { fed := d.fed ++ [x], todo := some (p.drop capacity) }, bytesRead := 1
               written := p.take capacity, remaining := (p.drop capacity).length }
  bytesRead_le h := by
    split at h
    · cases h; exact Nat.zero_le _
    · cases h; exact Nat.zero_le _
    · split at h <;> cases h <;> simp
  written_length_le h := by
    split at h
    · cases h; exact List.length_take_le _ _
    · cases h; exact Nat.zero_le _
    · split at h <;> cases h
      · exact Nat.zero_le _
      · exact List.length_take_le _ _

/-- What the decoder holds after it consumed `fed` and produced `out`. -/
def StoredHolds (d : StoredState) (fed out : Bytes) : Prop :=
  d.fed = fed ∧ ((d.todo = none ∧ storedFrame fed = none ∧ out = []) ∨
    ∃ q, d.todo = some q ∧ storedFrame fed = some (out ++ q))

/-- How much the decoder still has to do. -/
def StoredState.left (d : StoredState) : ℕ := d.todo.elim 1 List.length

theorem storedDecoder_isSome (d : StoredState) (input : Bytes) (capacity : ℕ) :
    (storedDecoder.runOnBuffers d input capacity).isSome := by
  simp only [storedDecoder]
  split
  · rfl
  · rfl
  · split <;> rfl

theorem storedDecoder_step {d : StoredState} {fed out input : Bytes} {capacity : ℕ}
    {st : RawStatus StoredState} (hd : StoredHolds d fed out)
    (h : storedDecoder.runOnBuffers d input capacity = some st) :
    StoredHolds st.decoder (fed ++ input.take st.bytesRead) (out ++ st.written) ∧
      st.remaining = st.decoder.left := by
  obtain ⟨rfl, htodo⟩ := hd
  simp only [storedDecoder] at h
  split at h
  · rename_i q hq
    cases h
    rcases htodo with ⟨hn, -⟩ | ⟨q', hq', hf⟩
    · rw [hn] at hq
      cases hq
    · cases hq.symm.trans hq'
      refine ⟨⟨by simp, Or.inr ⟨_, rfl, ?_⟩⟩, rfl⟩
      simpa using hf
  · rename_i hn
    cases h
    refine ⟨?_, by rw [StoredState.left, hn]; rfl⟩
    rw [List.take_nil, List.append_nil, List.append_nil]
    exact ⟨rfl, htodo⟩
  · rename_i x rest hn
    rcases htodo with ⟨-, -, rfl⟩ | ⟨q, hq, -⟩
    · split at h
      · rename_i hf
        cases h
        exact ⟨⟨rfl, Or.inl ⟨rfl, hf, rfl⟩⟩, rfl⟩
      · rename_i p hf
        cases h
        refine ⟨⟨rfl, Or.inr ⟨_, rfl, ?_⟩⟩, rfl⟩
        rw [List.nil_append, List.take_append_drop]
        exact hf
    · rw [hn] at hq
      cases hq

/-- **Invariant of the decoder**: inside a frame something is left to be done. -/
theorem storedDecoder_holds {windowLog idle : ℕ} {d : StoredState} {fed out : Bytes}
    (h : storedDecoder.Reached windowLog d fed out idle) :
    StoredHolds d fed out ∧ d.left ≠ 0 := by
  induction h with
  | start hnew hset =>
    cases hnew
    cases hset
    exact ⟨⟨rfl, Or.inl ⟨rfl, by decide, rfl⟩⟩, one_ne_zero⟩
  | run _ _ hrun hrem ih =>
    obtain ⟨hholds, hleft⟩ := storedDecoder_step ih.1 hrun
    exact ⟨hholds, hleft ▸ hrem⟩

theorem storedDecoder_sound (windowLog : ℕ) : storedDecoder.Sound storedFrame windowLog where
  complete hr _ hrun hrem := by
    obtain ⟨⟨-, hcase⟩, hleft⟩ := storedDecoder_step (storedDecoder_holds hr).1 hrun
    rw [hleft, StoredState.left] at hrem
    rcases hcase with ⟨hn, -⟩ | ⟨q, hq, hf⟩
    · rw [hn] at hrem
      exact absurd hrem one_ne_zero
    · rw [hq] at hrem
      rw [hf, List.length_eq_zero_iff.mp hrem, List.append_nil]
  monotone hr _ hrun hc hp := by
    obtain ⟨⟨-, hcase⟩, -⟩ := storedDecoder_step (storedDecoder_holds hr).1 hrun
    rcases hcase with ⟨-, -, hout⟩ | ⟨q, -, hf⟩
    · rw [hout]
      exact List.nil_prefix
    · rw [storedFrame_selfDelimiting hc hf hp, hc] at hf
      cases hf
      exact List.prefix_append _ _

theorem storedDecoder_live (windowLog : ℕ) : storedDecoder.Live storedFrame windowLog where
  ready := ⟨_, _, rfl, rfl⟩
  accepts _ _ _ _ _ _ _ _ _ := storedDecoder_isSome _ _ _
  progress hr hcap hc hpre hrun hrem hin := by
    obtain ⟨⟨-, hcase⟩, hleft⟩ := storedDecoder_holds hr
    simp only [storedDecoder] at hrun
    split at hrun
    · rename_i q hq
      cases hrun
      refine Or.inr fun hnil => hleft ?_
      rcases List.take_eq_nil_iff.mp hnil with hzero | rfl
      · omega
      · rw [StoredState.left, hq]
        rfl
    · rename_i hn
      rcases hcase with ⟨-, hf, -⟩ | ⟨q, hq, -⟩
      · rcases hin with hin | rfl
        · exact absurd rfl hin
        · rw [hf] at hc
          cases hc
      · rw [hn] at hq
        cases hq
    · split at hrun <;> cases hrun <;> exact Or.inl one_ne_zero

end Lib
