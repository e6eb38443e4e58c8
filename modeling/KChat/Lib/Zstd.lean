import KChat.Lib.Bytes

/-!
# Zstd: frame headers, the streaming encoder and the raw streaming decoder

* `FrameHeader.parse`: the frame header of RFC 8878, section 3.1.1.1.
* `Drive`: what an encoder does to the writer it owns during one call, as an interaction tree;
  `Drive.run` on a writer, **`Drive.run_eq_ok`**: a call that succeeds wrote slices that all went
  through.
* `Compressor`, `Compressor.stream`: all the bytes it hands over while every write succeeds.
* `RawDecoder`: one call consumes some input and produces some output. `RawDecoder.Reached`: the
  decoder has consumed `fed` and produced `out`, and its frame is not over.
* The meaning of a frame is a parameter `frame : Bytes → Option Bytes`, the content of a byte
  string that is exactly one complete frame. `SelfDelimiting`, `RawDecoder.Sound`,
  `RawDecoder.Live` and `Compressor.Encodes` say how encoder and decoder relate to it.
-/

namespace Lib

/-! ## Frame headers -/

/-- The fields of a frame header. -/
structure FrameHeader where
  /-- bytes of magic and header -/
  length : ℕ
  dictionaryIdFlag : ℕ
  reservedBit : ℕ
  unusedBit : ℕ
  windowSize : ℕ
  contentSize : Option ℕ
  deriving DecidableEq, Repr

namespace FrameHeader

def singleSegment (d : UInt8) : Bool := d.toNat / 32 % 2 == 1

/-- Width of the content size field. -/
def contentSizeBytes (d : UInt8) : ℕ :=
  match d.toNat / 64 with
  | 0 => if singleSegment d then 1 else 0
  | 1 => 2
  | 2 => 4
  | _ => 8

/-- Width of the dictionary id field. -/
def dictionaryIdBytes (d : UInt8) : ℕ :=
  match d.toNat % 4 with
  | 0 => 0
  | 1 => 1
  | 2 => 2
  | _ => 4

/-- The window a window descriptor names: exponent in the high five bits, mantissa in the rest. -/
def windowOf (w : UInt8) : ℕ :=
  let base := 2 ^ (10 + w.toNat / 8)
  base + base / 8 * (w.toNat % 8)

/-- The content size a field of this width holds; two bytes count from 256. -/
def contentSizeOf (field : Bytes) : ℕ :=
  if field.length = 2 then ofLE field + 256 else ofLE field

/-- The fields behind descriptor `d` and, unless the frame is a single segment, window `w`. -/
def ofFields (d : UInt8) (w : Option UInt8) (rest : Bytes) : Option FrameHeader :=
  let n := dictionaryIdBytes d
  let k := contentSizeBytes d
  if rest.length < n + k then none
  else
    let field := (rest.drop n).take k
    some
      { length := 5 + (if w.isSome then 1 else 0) + n + k
        dictionaryIdFlag := d.toNat % 4
        reservedBit := d.toNat / 8 % 2
        unusedBit := d.toNat / 16 % 2
        windowSize := w.elim (contentSizeOf field) windowOf
        contentSize := if k = 0 then none else some (contentSizeOf field) }

/-- **The frame header at the start of a byte string.** -/
def parse : Bytes → Option FrameHeader
  | 0x28 :: 0xb5 :: 0x2f :: 0xfd :: d :: rest =>
    if singleSegment d then ofFields d none rest
    else match rest with
      | [] => none
      | w :: rest => ofFields d (some w) rest
  | _ => none

theorem ofFields_append {d : UInt8} {w : Option UInt8} {rest : Bytes} {h : FrameHeader}
    (hh : ofFields d w rest = some h) (more : Bytes) : ofFields d w (rest ++ more) = some h := by
  simp only [ofFields] at hh ⊢
  by_cases hlen : rest.length < dictionaryIdBytes d + contentSizeBytes d
  · rw [if_pos hlen] at hh
    cases hh
  · rw [if_neg hlen] at hh
    rw [if_neg (by rw [List.length_append]; omega), List.drop_append_of_le_length (by omega),
      List.take_append_of_le_length (by rw [List.length_drop]; omega)]
    exact hh

/-- A header that is complete does not change when more bytes arrive. -/
theorem parse_append {c : Bytes} {h : FrameHeader} (hh : parse c = some h) (more : Bytes) :
    parse (c ++ more) = some h := by
  unfold parse at hh
  split at hh
  · rename_i d rest
    simp only [List.cons_append, parse]
    split_ifs at hh ⊢ with hs
    · exact ofFields_append hh more
    · cases rest with
      | nil => cases hh
      | cons w rest => exact ofFields_append hh more
  · cases hh

theorem ofFields_length {d : UInt8} {w : Option UInt8} {rest : Bytes} {h : FrameHeader}
    (hh : ofFields d w rest = some h) :
    h.length = 5 + (if w.isSome then 1 else 0) + dictionaryIdBytes d + contentSizeBytes d ∧
      dictionaryIdBytes d + contentSizeBytes d ≤ rest.length := by
  simp only [ofFields] at hh
  by_cases hlen : rest.length < dictionaryIdBytes d + contentSizeBytes d
  · rw [if_pos hlen] at hh
    cases hh
  · rw [if_neg hlen] at hh
    cases hh
    exact ⟨rfl, not_lt.mp hlen⟩

/-- What follows the fields is not read. -/
theorem ofFields_take {d : UInt8} {w : Option UInt8} {rest : Bytes} {h : FrameHeader}
    (hh : ofFields d w rest = some h) {m : ℕ} (hm : dictionaryIdBytes d + contentSizeBytes d ≤ m) :
    ofFields d w (rest.take m) = some h := by
  have hlen := (ofFields_length hh).2
  simp only [ofFields] at hh ⊢
  rw [if_neg (by omega)] at hh
  rw [if_neg (by rw [List.length_take]; omega), List.drop_take, List.take_take,
    min_eq_left (by omega)]
  exact hh

/-- **A header is as long as it says**, and what follows it is not read. -/
theorem parse_take {c : Bytes} {h : FrameHeader} (hh : parse c = some h) :
    h.length ≤ c.length ∧ ∀ m, h.length ≤ m → parse (c.take m) = some h := by
  unfold parse at hh
  split at hh
  · rename_i d rest
    have htake : ∀ m, 5 ≤ m → (0x28 :: 0xb5 :: 0x2f :: 0xfd :: d :: rest).take m =
        0x28 :: 0xb5 :: 0x2f :: 0xfd :: d :: rest.take (m - 5) := by
      intro m hm
      obtain ⟨k, rfl⟩ := Nat.exists_eq_add_of_le' hm
      rfl
    simp only [List.length_cons]
    by_cases hs : singleSegment d
    · rw [if_pos hs] at hh
      obtain ⟨hlength, hle⟩ := ofFields_length hh
      simp only [Option.isSome_none, Bool.false_eq_true, if_false] at hlength
      refine ⟨by omega, fun m hm => ?_⟩
      have hfields : ofFields d none (rest.take (m - 5)) = some h := ofFields_take hh (by omega)
      rw [htake m (by omega)]
      simp only [parse, if_pos hs]
      exact hfields
    · rw [if_neg hs] at hh
      cases rest with
      | nil => cases hh
      | cons w rest =>
        obtain ⟨hlength, hle⟩ := ofFields_length hh
        simp only [Option.isSome_some, if_true] at hlength
        refine ⟨by rw [List.length_cons]; omega, fun m hm => ?_⟩
        obtain ⟨k, hk⟩ := Nat.exists_eq_add_of_le' (show 1 ≤ m - 5 by omega)
        have hfields : ofFields d (some w) (rest.take k) = some h := ofFields_take hh (by omega)
        rw [htake m (by omega), hk, List.take_succ_cons]
        simp only [parse, if_neg hs]
        exact hfields
  · cases hh

theorem exists_eq_cons_of_parse {c : Bytes} {h : FrameHeader} (hh : parse c = some h) :
    ∃ d rest, c = 0x28 :: 0xb5 :: 0x2f :: 0xfd :: d :: rest := by
  unfold parse at hh
  split at hh
  · exact ⟨_, _, rfl⟩
  · cases hh

theorem parse_of_isPrefix {c c' : Bytes} {h : FrameHeader} (hh : parse c = some h)
    (hc : c <+: c') : parse c' = some h := by
  obtain ⟨more, rfl⟩ := hc
  exact parse_append hh more

end FrameHeader

/-! ## The streaming encoder -/

/-- One call of an encoder on the writer it owns: it hands over slices, is told whether each write
succeeded, and returns. -/
inductive Drive (κ : Type)
  | ret (ok : Bool) (encoder : κ)
  | write (slice : Bytes) (next : Bool → Drive κ)

/-- All the slices are written, in order; nothing if a write fails. -/
def writesAll {ω : Type} (write : Bytes → ω → Bool × ω) : List Bytes → ω → Option ω
  | [], s => some s
  | slice :: slices, s =>
    let r := write slice s
    if r.1 then writesAll write slices r.2 else none

namespace Drive

variable {κ ω : Type}

/-- The call when every write succeeds: its result and all it hands over. -/
def accepted : Drive κ → Bool × κ × Bytes
  | ret ok k => (ok, k, [])
  | write slice next =>
    let r := (next true).accepted
    (r.1, r.2.1, slice ++ r.2.2)

/-- The call on a writer. -/
def run (f : Bytes → ω → Bool × ω) : Drive κ → ω → Bool × κ × ω
  | ret ok k, s => (ok, k, s)
  | write slice next, s =>
    let r := f slice s
    (next r.1).run f r.2

/-- When a write fails the call returns the failure at once. -/
def FailsFast : Drive κ → Prop
  | ret _ _ => True
  | write _ next => (∃ k, next false = ret false k) ∧ (next true).FailsFast

/-- **A call that succeeds** wrote slices that all went through. -/
theorem run_eq_ok {f : Bytes → ω → Bool × ω} {d : Drive κ} (hd : d.FailsFast) {s s' : ω} {k : κ}
    (h : d.run f s = (true, k, s')) :
    ∃ slices, writesAll f slices s = some s' ∧ d.accepted = (true, k, slices.flatten) := by
  induction d generalizing s with
  | ret ok k' =>
    cases h
    exact ⟨[], rfl, rfl⟩
  | write slice next ih =>
    obtain ⟨⟨k', hk'⟩, hnext⟩ := hd
    rw [run] at h
    cases hw : (f slice s).1 with
    | false =>
      simp [hw, hk', run] at h
    | true =>
      simp only [hw] at h
      obtain ⟨slices, hs, hacc⟩ := ih true hnext h
      refine ⟨slice :: slices, ?_, ?_⟩
      · rw [writesAll, if_pos hw, hs]
      · rw [accepted, hacc, List.flatten_cons]

/-- A call on a writer whose successful writes keep `J`: it keeps `J` unless it fails. -/
theorem run_keeps {f : Bytes → ω → Bool × ω} {J F : ω → Prop} (hF : ∀ s, J s → F s)
    (hf : ∀ slice s, J s → if (f slice s).1 then J (f slice s).2 else F (f slice s).2)
    {d : Drive κ} (hd : d.FailsFast) {s : ω} (hs : J s) :
    if (d.run f s).1 then J (d.run f s).2.2 else F (d.run f s).2.2 := by
  induction d generalizing s with
  | ret ok k =>
    cases ok with
    | true => exact hs
    | false => exact hF s hs
  | write slice next ih =>
    obtain ⟨⟨k', hk'⟩, hnext⟩ := hd
    have hwrite := hf slice s hs
    rw [run]
    cases hw : (f slice s).1 with
    | false =>
      rw [hw, if_neg Bool.false_ne_true] at hwrite
      simpa [hw, hk', run] using hwrite
    | true =>
      rw [hw, if_pos rfl] at hwrite
      exact ih true hnext hwrite

end Drive

/-- **A streaming encoder** over a writer of its own. -/
structure Compressor (κ : Type) where
  new : ℕ → Option κ
  writeAll : κ → Bytes → Drive κ
  tryFinish : κ → Drive κ

namespace Compressor

variable {κ : Type} (C : Compressor κ)

/-- The encoder after `pieces` were written, and all it handed over, when every write of its own
succeeds; nothing if the encoder itself fails. -/
def written : κ → List Bytes → Option (κ × Bytes)
  | k, [] => some (k, [])
  | k, piece :: pieces =>
    let r := (C.writeAll k piece).accepted
    if r.1 then (written r.2.1 pieces).map fun r' => (r'.1, r.2.2 ++ r'.2) else none

/-- All the bytes handed over while `pieces` are written and the stream is finished. -/
def stream (k : κ) (pieces : List Bytes) : Option Bytes :=
  (C.written k pieces).bind fun r =>
    let last := (C.tryFinish r.1).accepted
    if last.1 then some (r.2 ++ last.2.2) else none

variable {C}

theorem written_append_singleton {k k' k'' : κ} {pieces : List Bytes} {piece c more : Bytes}
    (h : C.written k pieces = some (k', c))
    (h' : (C.writeAll k' piece).accepted = (true, k'', more)) :
    C.written k (pieces ++ [piece]) = some (k'', c ++ more) := by
  induction pieces generalizing k c with
  | nil =>
    cases h
    simp [written, h']
  | cons p pieces ih =>
    rw [written] at h
    split_ifs at h with hok
    obtain ⟨⟨k₁, c₁⟩, hr, heq⟩ := Option.map_eq_some_iff.mp h
    cases heq
    rw [List.cons_append, written, if_pos hok, ih hr, Option.map_some, List.append_assoc]

theorem stream_eq_some {k k' k'' : κ} {pieces : List Bytes} {c last : Bytes}
    (h : C.written k pieces = some (k', c)) (h' : (C.tryFinish k').accepted = (true, k'', last)) :
    C.stream k pieces = some (c ++ last) := by
  rw [stream, h, Option.bind_some, h', if_pos rfl]

variable (C)

/-- **The encoder emits one frame** of what it was given, without a dictionary, with a header that
passes RFC 8878 and a window of at most `2 ^ windowLog` bytes, and passes on the failure of a
write. -/
structure Encodes (frame : Bytes → Option Bytes) (level windowLog : ℕ) : Prop where
  writeAll_failsFast : ∀ k bytes, (C.writeAll k bytes).FailsFast
  tryFinish_failsFast : ∀ k, (C.tryFinish k).FailsFast
  content : ∀ {k pieces c}, C.new level = some k → C.stream k pieces = some c →
    frame c = some pieces.flatten
  header : ∀ {k pieces c}, C.new level = some k → C.stream k pieces = some c →
    ∃ h, FrameHeader.parse c = some h ∧ h.dictionaryIdFlag = 0 ∧ h.reservedBit = 0 ∧
      h.unusedBit = 0 ∧ h.windowSize ≤ 2 ^ windowLog ∧
      ∀ n, h.contentSize = some n → n = pieces.flatten.length

/-- **The encoder stops at the first failure of a write.** -/
def StopsAtFailure : Prop :=
  (∀ k bytes, (C.writeAll k bytes).FailsFast) ∧ ∀ k, (C.tryFinish k).FailsFast

end Compressor

/-! ## The raw streaming decoder -/

/-- A decoder may give up after so many calls in a row without progress. -/
def maxIdleCalls : ℕ := 16

/-- What one call of the raw decoder reports. -/
structure RawStatus (δ : Type) where
  decoder : δ
  bytesRead : ℕ
  written : Bytes
  remaining : ℕ

/-- **A raw streaming decoder**: it reads no more than the input and writes no more than the
capacity. -/
structure RawDecoder (δ : Type) where
  new : Option δ
  setWindowLogMax : δ → ℕ → Option δ
  runOnBuffers : δ → Bytes → ℕ → Option (RawStatus δ)
  bytesRead_le : ∀ {d input capacity st}, runOnBuffers d input capacity = some st →
    st.bytesRead ≤ input.length
  written_length_le : ∀ {d input capacity st}, runOnBuffers d input capacity = some st →
    st.written.length ≤ capacity

/-- No complete frame continues another. -/
def SelfDelimiting (frame : Bytes → Option Bytes) : Prop :=
  ∀ {c c' p p'}, frame c = some p → frame c' = some p' → c' <+: c → c' = c

namespace RawDecoder

variable {δ : Type} (R : RawDecoder δ)

/-- A decoder with window limit `2 ^ windowLog` that has consumed `fed` and produced `out` without
having reported the end of its frame; its last `idle` calls made no progress. -/
inductive Reached (windowLog : ℕ) : δ → Bytes → Bytes → ℕ → Prop
  | start {d d'} : R.new = some d → R.setWindowLogMax d windowLog = some d' →
      Reached windowLog d' [] [] 0
  | run {d fed out idle input capacity st} : Reached windowLog d fed out idle → 0 < capacity →
      R.runOnBuffers d input capacity = some st → st.remaining ≠ 0 →
      Reached windowLog st.decoder (fed ++ input.take st.bytesRead) (out ++ st.written)
        (if st.bytesRead = 0 ∧ st.written = [] then idle + 1 else 0)

/-- **Soundness**: the end of a frame is reported on a complete frame all of whose content has been
produced, and output never runs ahead of the frame. -/
structure Sound (frame : Bytes → Option Bytes) (windowLog : ℕ) : Prop where
  complete : ∀ {d fed out idle input capacity st}, R.Reached windowLog d fed out idle →
    0 < capacity → R.runOnBuffers d input capacity = some st → st.remaining = 0 →
    frame (fed ++ input.take st.bytesRead) = some (out ++ st.written)
  monotone : ∀ {d fed out idle input capacity st c p}, R.Reached windowLog d fed out idle →
    0 < capacity → R.runOnBuffers d input capacity = some st → frame c = some p →
    fed ++ input.take st.bytesRead <+: c → out ++ st.written <+: p

/-- **Liveness**: there is a decoder; inside a frame without a dictionary whose window is within the
limit it does not fail unless it was called `maxIdleCalls` times in a row without progress, and it
makes progress while there is input or content left. -/
structure Live (frame : Bytes → Option Bytes) (windowLog : ℕ) : Prop where
  ready : ∃ d d', R.new = some d ∧ R.setWindowLogMax d windowLog = some d'
  accepts : ∀ {d fed out idle input capacity c p h}, R.Reached windowLog d fed out idle →
    idle + 1 < maxIdleCalls → 0 < capacity → frame c = some p → FrameHeader.parse c = some h →
    h.dictionaryIdFlag = 0 → h.reservedBit = 0 → h.windowSize ≤ 2 ^ windowLog →
    fed ++ input <+: c → (R.runOnBuffers d input capacity).isSome
  progress : ∀ {d fed out idle input capacity c p st}, R.Reached windowLog d fed out idle →
    0 < capacity → frame c = some p → fed ++ input <+: c →
    R.runOnBuffers d input capacity = some st → st.remaining ≠ 0 → input ≠ [] ∨ fed = c →
    st.bytesRead ≠ 0 ∨ st.written ≠ []

end RawDecoder

end Lib
