import KChat.Backup.Io
import KChat.Lib.Zstd

/-!
# Bounded decompression

* `checkHeader`: the check of the frame header while it arrives; **`checkHeader_eq_ok_true`**: it
  succeeds on what parses as a header with `GoodHeader`; `checkHeader_of_isPrefix`.
* `BoundedDecoder`: one frame, decoded within the limits and emitted chunk by chunk.
* `BoundedDecoder.Invariant`: what holds from step to step; **`BoundedDecoder.push_keeps`**: the rule
  of a push.
-/

namespace KChat.Backup

open Lib

variable {σ δ : Type}

/-! ## The header -/

/-- **What the header check lets through**: no dictionary, no reserved bits, a bounded window and a
bounded declared size. -/
structure GoodHeader (h : FrameHeader) : Prop where
  dictionaryIdFlag : h.dictionaryIdFlag = 0
  reservedBit : h.reservedBit = 0
  unusedBit : h.unusedBit = 0
  windowSize : h.windowSize ≤ maxZstdWindowBytesV1
  contentSize : ∀ n, h.contentSize = some n → n ≤ maxPlaintextObjectBytesV1

/-- Whether the header is complete, or why it is refused. -/
def checkHeader (header : Bytes) : Except BackupErrorCode Bool :=
  if header.length < 5 then .ok false
  else if header.take 4 ≠ [0x28, 0xb5, 0x2f, 0xfd] then .error .invalidCompressedData
  else
    let descriptor := header.getD 4 0
    if descriptor &&& 0x1b ≠ 0 then .error .invalidCompressedData
    else
      let single : Bool := descriptor &&& 0x20 ≠ 0
      let sizeBytes :=
        match (descriptor >>> 6).toNat with
        | 0 => if single then 1 else 0
        | 1 => 2
        | 2 => 4
        | _ => 8
      let sizeOffset := if single then 5 else 6
      if header.length < sizeOffset + sizeBytes then .ok false
      else
        let size := leFold 0 0 ((header.drop sizeOffset).take sizeBytes)
        let size := if sizeBytes = 2 then size + 256 else size
        let window :=
          if single then size
          else
            let base := 2 ^ (10 + (header.getD 5 0 >>> 3).toNat)
            base + base / 8 * (header.getD 5 0 &&& 7).toNat
        if maxZstdWindowBytesV1 < window ∨ maxPlaintextObjectBytesV1 < size then
          .error .resourceLimitExceeded
        else .ok true

section header

variable (d : UInt8)

theorem and_0x1b_eq_zero :
    d &&& 0x1b = 0 ↔ d.toNat % 4 = 0 ∧ d.toNat / 8 % 2 = 0 ∧ d.toNat / 16 % 2 = 0 := by
  have h : ∀ n < 256, (n &&& 0x1b = 0 ↔ n % 4 = 0 ∧ n / 8 % 2 = 0 ∧ n / 16 % 2 = 0) := by
    decide +kernel
  rw [← h d.toNat d.toNat_lt, ← UInt8.toNat_inj]
  rfl

theorem and_0x20_ne_zero : decide (d &&& 0x20 ≠ 0) = FrameHeader.singleSegment d := by
  have h : ∀ n < 256, decide (n &&& 0x20 ≠ 0) = (n / 32 % 2 == 1) := by decide +kernel
  rw [FrameHeader.singleSegment, ← h d.toNat d.toNat_lt]
  refine decide_eq_decide.mpr ?_
  rw [ne_eq, ne_eq, ← UInt8.toNat_inj]
  rfl

theorem shiftRight_toNat (i : ℕ) (hi : i < 8) : (d >>> UInt8.ofNat i).toNat = d.toNat / 2 ^ i := by
  rw [UInt8.toNat_shiftRight, Nat.shiftRight_eq_div_pow, UInt8.toNat_ofNat']
  congr 2
  omega

theorem and_7_toNat : (d &&& 7).toNat = d.toNat % 8 := by
  rw [UInt8.toNat_and]
  exact Nat.and_two_pow_sub_one_eq_mod d.toNat 3

variable {d} {rest : Bytes}

theorem parse_flags {h : FrameHeader}
    (hp : FrameHeader.parse (0x28 :: 0xb5 :: 0x2f :: 0xfd :: d :: rest) = some h) :
    h.dictionaryIdFlag = d.toNat % 4 ∧ h.reservedBit = d.toNat / 8 % 2 ∧
      h.unusedBit = d.toNat / 16 % 2 := by
  have key : ∀ w rest', FrameHeader.ofFields d w rest' = some h → h.dictionaryIdFlag = d.toNat % 4 ∧
      h.reservedBit = d.toNat / 8 % 2 ∧ h.unusedBit = d.toNat / 16 % 2 := by
    intro w rest' hf
    simp only [FrameHeader.ofFields] at hf
    split_ifs at hf <;> cases hf <;> exact ⟨rfl, rfl, rfl⟩
  simp only [FrameHeader.parse] at hp
  split_ifs at hp
  · exact key _ _ hp
  · cases rest with
    | nil => cases hp
    | cons w rest => exact key _ _ hp

/-- The fields behind descriptor and window, where there is no dictionary id. -/
theorem ofFields_eq (hd : d.toNat % 4 = 0) (w : Option UInt8) :
    FrameHeader.ofFields d w rest =
      if rest.length < FrameHeader.contentSizeBytes d then none
      else
        let size := FrameHeader.contentSizeOf (rest.take (FrameHeader.contentSizeBytes d))
        some
          { length := 5 + (if w.isSome then 1 else 0) + FrameHeader.contentSizeBytes d
            dictionaryIdFlag := 0
            reservedBit := d.toNat / 8 % 2
            unusedBit := d.toNat / 16 % 2
            windowSize := w.elim size FrameHeader.windowOf
            contentSize := if FrameHeader.contentSizeBytes d = 0 then none else some size } := by
  simp [FrameHeader.ofFields, FrameHeader.dictionaryIdBytes, hd]

/-- The size the loop of the check computes. -/
theorem contentSizeOf_eq {k : ℕ} (h : k ≤ rest.length) :
    (if k = 2 then leFold 0 0 (rest.take k) + 256 else leFold 0 0 (rest.take k)) =
      FrameHeader.contentSizeOf (rest.take k) := by
  rw [FrameHeader.contentSizeOf, leFold_eq 0 0 _ (by norm_num), List.length_take, min_eq_left h]
  simp

theorem getD_contentSize (k : ℕ) :
    (if k = 0 then none else some (FrameHeader.contentSizeOf (rest.take k))).getD 0 =
      FrameHeader.contentSizeOf (rest.take k) := by
  split_ifs with hk
  · rw [hk]
    rfl
  · rfl

/-- **The check is the parser and then the limits.** -/
theorem checkHeader_cons (hd : d.toNat % 4 = 0 ∧ d.toNat / 8 % 2 = 0 ∧ d.toNat / 16 % 2 = 0) :
    checkHeader (0x28 :: 0xb5 :: 0x2f :: 0xfd :: d :: rest) =
      match FrameHeader.parse (0x28 :: 0xb5 :: 0x2f :: 0xfd :: d :: rest) with
      | none => .ok false
      | some h =>
        if maxZstdWindowBytesV1 < h.windowSize ∨ maxPlaintextObjectBytesV1 < h.contentSize.getD 0 then
          .error .resourceLimitExceeded
        else .ok true := by
  have hbits := (and_0x1b_eq_zero d).mpr hd
  have hbytes : (match (d >>> 6).toNat with
      | 0 => if FrameHeader.singleSegment d then 1 else 0
      | 1 => 2
      | 2 => 4
      | _ => 8) = FrameHeader.contentSizeBytes d := by
    rw [show (d >>> 6).toNat = d.toNat / 64 from shiftRight_toNat d 6 (by decide)]
    rfl
  simp only [checkHeader, List.length_cons, List.getD_cons_succ, List.getD_cons_zero, hbits,
    and_0x20_ne_zero, hbytes, FrameHeader.parse]
  rw [if_neg (by omega), if_neg (by simp), if_neg (by simp)]
  cases hs : FrameHeader.singleSegment d with
  | true =>
    simp only [ofFields_eq hd.1, if_true, List.drop_succ_cons, List.drop_zero]
    by_cases hlen : rest.length < FrameHeader.contentSizeBytes d
    · rw [if_pos (by omega), if_pos hlen]
    · rw [if_neg (by omega), if_neg hlen, contentSizeOf_eq (not_lt.mp hlen)]
      simp only [getD_contentSize, Option.elim_none]
  | false =>
    simp only [Bool.false_eq_true, if_false, List.drop_succ_cons]
    cases rest with
    | nil => rw [if_pos (by simp only [List.length_nil]; omega)]
    | cons w rest =>
      simp only [ofFields_eq hd.1, List.drop_one, List.tail_cons, List.getD_cons_zero,
        List.length_cons]
      by_cases hlen : rest.length < FrameHeader.contentSizeBytes d
      · rw [if_pos (by omega), if_pos hlen]
      · rw [if_neg (by omega), if_neg hlen, contentSizeOf_eq (not_lt.mp hlen),
          show (w >>> 3).toNat = w.toNat / 8 from shiftRight_toNat w 3 (by decide), and_7_toNat]
        simp only [getD_contentSize, Option.elim_some, FrameHeader.windowOf]

theorem checkHeader_of_length_lt {header : Bytes} (h : header.length < 5) :
    checkHeader header = .ok false := if_pos h

theorem exists_eq_cons {header : Bytes} (h : ¬ header.length < 5)
    (hmagic : header.take 4 = [0x28, 0xb5, 0x2f, 0xfd]) :
    ∃ d rest, header = 0x28 :: 0xb5 :: 0x2f :: 0xfd :: d :: rest := by
  match header with
  | [] | [_] | [_, _] | [_, _, _] | [_, _, _, _] => simp at h
  | a :: b :: c :: e :: d :: rest =>
    simp only [List.take_succ_cons, List.take_zero, List.cons.injEq, and_true] at hmagic
    obtain ⟨rfl, rfl, rfl, rfl⟩ := hmagic
    exact ⟨d, rest, rfl⟩

/-- **A header that passes** parses within the limits. -/
theorem checkHeader_eq_ok_true {header : Bytes} (h : checkHeader header = .ok true) :
    ∃ fh, FrameHeader.parse header = some fh ∧ GoodHeader fh := by
  by_cases hlen : header.length < 5
  · rw [checkHeader_of_length_lt hlen] at h
    cases h
  by_cases hmagic : header.take 4 = [0x28, 0xb5, 0x2f, 0xfd]
  · obtain ⟨d, rest, rfl⟩ := exists_eq_cons hlen hmagic
    by_cases hd : d &&& 0x1b = 0
    · have hbits := (and_0x1b_eq_zero d).mp hd
      rw [checkHeader_cons hbits] at h
      cases hp : FrameHeader.parse (0x28 :: 0xb5 :: 0x2f :: 0xfd :: d :: rest) with
      | none =>
        rw [hp] at h
        cases h
      | some fh =>
        simp only [hp] at h
        split_ifs at h with hlim
        obtain ⟨h1, h2, h3⟩ := parse_flags hp
        refine ⟨fh, rfl, h1.trans hbits.1, h2.trans hbits.2.1, h3.trans hbits.2.2, by omega, ?_⟩
        intro n hn
        rw [hn, Option.getD_some] at hlim
        omega
    · rw [checkHeader, if_neg hlen, if_neg (not_not.mpr hmagic)] at h
      simp [hd] at h
  · rw [checkHeader, if_neg hlen, if_pos hmagic] at h
    cases h

/-- The beginnings of an acceptable frame are never refused. -/
theorem checkHeader_of_isPrefix {c header : Bytes} {fh : FrameHeader}
    (hc : FrameHeader.parse c = some fh) (hgood : GoodHeader fh) (hp : header <+: c) :
    checkHeader header = .ok (FrameHeader.parse header).isSome := by
  by_cases hlen : header.length < 5
  · have hnone : FrameHeader.parse header = none := by
      by_contra hsome
      obtain ⟨h, hh⟩ := Option.ne_none_iff_exists'.mp hsome
      obtain ⟨d, rest, rfl⟩ := FrameHeader.exists_eq_cons_of_parse hh
      simp only [List.length_cons] at hlen
      omega
    rw [checkHeader_of_length_lt hlen, hnone]
    rfl
  · obtain ⟨d, rest, rfl⟩ := FrameHeader.exists_eq_cons_of_parse hc
    obtain ⟨h1, h2, h3⟩ := parse_flags hc
    have hmagic : header.take 4 = [0x28, 0xb5, 0x2f, 0xfd] := by
      have := List.prefix_iff_eq_take.mp hp
      rw [this, List.take_take, min_eq_left (by omega)]
      rfl
    obtain ⟨d', rest', rfl⟩ := exists_eq_cons hlen hmagic
    obtain rfl : d' = d := by
      simp only [List.cons_prefix_cons] at hp
      exact hp.2.2.2.2.1
    rw [checkHeader_cons ⟨by rw [← h1, hgood.dictionaryIdFlag], by rw [← h2, hgood.reservedBit],
      by rw [← h3, hgood.unusedBit]⟩]
    cases hparse : FrameHeader.parse (0x28 :: 0xb5 :: 0x2f :: 0xfd :: d' :: rest') with
    | none => rfl
    | some h =>
      obtain rfl : h = fh := Option.some.inj
        ((FrameHeader.parse_of_isPrefix hparse hp).symm.trans hc)
      have hsize : h.contentSize.getD 0 ≤ maxPlaintextObjectBytesV1 := by
        cases hn : h.contentSize with
        | none => exact Nat.zero_le _
        | some n => exact hgood.contentSize n hn
      have hwindow := hgood.windowSize
      simp only [Option.isSome_some]
      rw [if_neg (by omega)]

end header

/-! ## The decoder -/

/-- The fields of the decoder; `header` holds the bytes of an incomplete header. -/
structure BoundedDecoder (δ : Type) where
  decoder : δ
  header : Bytes
  headerChecked : Bool
  complete : Bool
  total : ℕ
  limit : ℕ

namespace BoundedDecoder

variable (R : RawDecoder δ) (emit : Bytes → Call σ Unit) (cancelled : Call σ Unit)

def windowLogMax : ℕ := Nat.log2 maxZstdWindowBytesV1

def fresh (decoder : δ) : BoundedDecoder δ where
  decoder := decoder
  header := []
  headerChecked := false
  complete := false
  total := 0
  limit := maxPlaintextObjectBytesV1

def new : Call σ (BoundedDecoder δ) := do
  let decoder ← orThrow R.new .ioError
  let decoder ← orThrow (R.setWindowLogMax decoder windowLogMax) .invalidState
  return fresh decoder

def decodeLoop (d : BoundedDecoder δ) (bytes : Bytes) : Call σ (BoundedDecoder δ) := do
  cancelled
  let capacity := min maxIoChunkBytesV1 (d.limit - d.total + 1)
  match h : R.runOnBuffers d.decoder bytes capacity with
  | none => throw .invalidCompressedData
  | some status =>
    let total := d.total + status.written.length
    if _htotal : total < 2 ^ 64 ∧ total ≤ d.limit then
      cancelled
      if status.written ≠ [] then
        emit status.written
      cancelled
      let d := { d with decoder := status.decoder, total := total }
      let rest := bytes.drop status.bytesRead
      if status.remaining = 0 then
        if rest = [] then return { d with complete := true } else throw .invalidCompressedData
      else if _hidle : status.bytesRead = 0 ∧ status.written = [] then
        if rest = [] then return d else throw .invalidCompressedData
      else decodeLoop d rest
    else throw .resourceLimitExceeded
termination_by bytes.length + (d.limit - d.total)
decreasing_by
  have hread := R.bytesRead_le h
  rw [List.length_drop]
  by_cases hw : status.written = []
  · have : status.bytesRead ≠ 0 := fun h0 => _hidle ⟨h0, hw⟩
    simp only [hw, List.length_nil] at _htotal ⊢
    omega
  · have := List.length_pos_iff.mpr hw
    omega

def decode (d : BoundedDecoder δ) (bytes : Bytes) : Call σ (BoundedDecoder δ) :=
  if d.complete then
    if bytes = [] then pure d else throw .invalidCompressedData
  else decodeLoop R emit cancelled d bytes

/-- The loop of `push`: the header is completed byte by byte; what it leaves of `bytes`. -/
def pushHeader (d : BoundedDecoder δ) : Bytes → Call σ (BoundedDecoder δ × Bytes)
  | [] => pure (d, [])
  | b :: bytes => do
    if d.headerChecked then
      return (d, b :: bytes)
    let header := d.header ++ [b]
    if ← ofResult (checkHeader header) then
      let d ← decode R emit cancelled { d with header := [], headerChecked := true } header
      pushHeader d bytes
    else
      pushHeader { d with header := header } bytes

def push (d : BoundedDecoder δ) (bytes : Bytes) : Call σ (BoundedDecoder δ) := do
  let r ← pushHeader R emit cancelled d bytes
  if r.1.headerChecked then
    decode R emit cancelled r.1 r.2
  else return r.1

def finish (d : BoundedDecoder δ) : Except BackupErrorCode Unit :=
  if d.headerChecked ∧ d.complete then .ok () else .error .invalidCompressedData

/-! ## The rule of a push -/

/-- `I` holds of decoder and world from step to step, and `E` once a step has failed. -/
structure Invariant (I : BoundedDecoder δ → World σ → Prop) (E : BackupErrorCode → World σ → Prop) :
    Prop where
  fails : ∀ d e w, I d w → E e w
  asks : ∀ d w, I d w → wp cancelled w (fun _ => I d) E
  emits : ∀ d (status : RawStatus δ) w, I d w → d.total + status.written.length ≤ d.limit →
    status.written ≠ [] → wp (emit status.written) w (fun _ =>
      I { d with decoder := status.decoder, total := d.total + status.written.length }) E
  skips : ∀ d (status : RawStatus δ) w, I d w → status.written = [] →
    I { d with decoder := status.decoder, total := d.total + status.written.length } w
  completes : ∀ d w, I d w → I { d with complete := true } w
  takesHeader : ∀ d header checked w, I d w →
    I { d with header := header, headerChecked := checked } w

section rule

variable {R : RawDecoder δ} {emit : Bytes → Call σ Unit} {cancelled : Call σ Unit}
  {I : BoundedDecoder δ → World σ → Prop} {E : BackupErrorCode → World σ → Prop}
  (hI : Invariant emit cancelled I E)

include hI

theorem decodeLoop_keeps (d : BoundedDecoder δ) (bytes : Bytes) (w : World σ) (hw : I d w) :
    wp (decodeLoop R emit cancelled d bytes) w I E := by
  induction d, bytes using decodeLoop.induct R generalizing w with
  | case1 d bytes ih =>
    rw [decodeLoop, wp_bind]
    refine wp_mono (hI.asks d w hw) (fun _ w₁ h₁ => ?_) fun _ _ h => h
    dsimp only
    split
    · exact hI.fails d _ _ h₁
    rename_i status hrun
    split
    swap
    · exact hI.fails d _ _ h₁
    rename_i htotal
    rw [wp_bind]
    refine wp_mono (hI.asks d w₁ h₁) (fun _ w₂ h₂ => ?_) fun _ _ h => h
    -- the end of the round, after the chunk if there is one
    have hafter : ∀ w₃, I { d with
        decoder := status.decoder, total := d.total + status.written.length } w₃ → wp (do
        cancelled
        let d := { d with decoder := status.decoder, total := d.total + status.written.length }
        let rest := bytes.drop status.bytesRead
        if status.remaining = 0 then
          if rest = [] then return { d with complete := true } else throw .invalidCompressedData
        else if _hidle : status.bytesRead = 0 ∧ status.written = [] then
          if rest = [] then return d else throw .invalidCompressedData
        else decodeLoop R emit cancelled d rest) w₃ I E := by
      intro w₃ h₃
      rw [wp_bind]
      refine wp_mono (hI.asks _ w₃ h₃) (fun _ w₄ h₄ => ?_) fun _ _ h => h
      dsimp only
      refine wp_ite (fun _ => ?_) fun _ => ?_
      · exact wp_ite (fun _ => hI.completes _ _ h₄) fun _ => hI.fails _ _ _ h₄
      split
      · exact wp_ite (fun _ => h₄) fun _ => hI.fails _ _ _ h₄
      · rename_i hidle
        exact ih status hrun htotal hidle w₄ h₄
    by_cases hnil : status.written = []
    · rw [if_neg (not_not.mpr hnil)]
      exact hafter w₂ (hI.skips d status w₂ h₂ hnil)
    · rw [if_pos hnil, wp_bind]
      exact wp_mono (hI.emits d status w₂ h₂ htotal.2 hnil) (fun _ w₃ h₃ => hafter w₃ h₃)
        fun _ _ h => h

theorem decode_keeps (d : BoundedDecoder δ) (bytes : Bytes) (w : World σ) (hw : I d w) :
    wp (decode R emit cancelled d bytes) w I E := by
  refine wp_ite (fun _ => ?_) fun _ => decodeLoop_keeps hI d bytes w hw
  exact wp_ite (fun _ => hw) fun _ => hI.fails d _ w hw

theorem pushHeader_keeps (d : BoundedDecoder δ) (bytes : Bytes) (w : World σ) (hw : I d w) :
    wp (pushHeader R emit cancelled d bytes) w (fun r => I r.1) E := by
  induction bytes generalizing d w with
  | nil => exact hw
  | cons b bytes ih =>
    refine wp_ite (fun _ => hw) fun _ => ?_
    rw [wp_bind]
    refine wp_ofResult (fun complete _ => ?_) fun e _ => hI.fails d e w hw
    refine wp_ite (fun _ => ?_) fun _ => ih _ w (hI.takesHeader d _ _ w hw)
    rw [wp_bind]
    exact wp_mono (decode_keeps hI _ _ w (hI.takesHeader d _ _ w hw))
      (fun d' w' h' => ih d' w' h') fun _ _ h => h

/-- **What every step keeps, a push keeps.** -/
theorem push_keeps (d : BoundedDecoder δ) (bytes : Bytes) (w : World σ) (hw : I d w) :
    wp (push R emit cancelled d bytes) w I E := by
  rw [push, wp_bind]
  refine wp_mono (pushHeader_keeps hI d bytes w hw) (fun r w' h' => ?_) fun _ _ h => h
  exact wp_ite (fun _ => decode_keeps hI _ _ w' h') fun _ => h'

end rule

end BoundedDecoder

end KChat.Backup
