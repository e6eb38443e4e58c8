import KChat.Backup.Compression
import KChat.Backup.Envelope
import KChat.Lib.Stream

/-!
# The object reader

* `CheckedSource`: reads bounded by the ciphertext limit, that end at the first empty read.
* `openObjectV1`: header, then frames; the last frame is the one with nothing behind it. The loop
  has more rounds than the ciphertext limit lets it use (`authenticateLoop_rounds`).
* `readExact_spec`, `nextLength_spec`: what a read of an honest source yields depends on the bytes
  left and not on how they are cut.
-/

namespace KChat.Backup

open Lib

variable {σ δ : Type}

/-- Fails if the caller cancels. -/
def checkCancelled (source : BackupByteSource σ) : Call σ Unit := do
  if ← source.cancelled then
    throw .cancelled

/-! ## The source -/

/-- How much has been read, and whether the end was seen. -/
structure CheckedSource where
  bytes : ℕ
  eof : Bool

namespace CheckedSource

variable (source : BackupByteSource σ)

def new : Call σ CheckedSource := do
  checkCancelled source
  return { bytes := 0, eof := false }

/-- One read into a destination of `n` bytes. -/
def read (input : CheckedSource) (n : ℕ) : Call σ (Bytes × CheckedSource) := do
  checkCancelled source
  if input.eof then
    return ([], input)
  let remainingWithProbe := maxCiphertextObjectBytesV1 - input.bytes + 1
  let capacity := min (min n maxIoChunkBytesV1) remainingWithProbe
  let data ← source.read capacity
  checkCancelled source
  if capacity < data.length then
    throw .invalidState
  let bytes := input.bytes + data.length
  if maxCiphertextObjectBytesV1 < bytes then
    throw .resourceLimitExceeded
  return (data, { bytes := bytes, eof := data = [] })

def readExact (input : CheckedSource) (n : ℕ) : Call σ (Bytes × CheckedSource) :=
  if _h : n = 0 then pure ([], input)
  else do
    let r ← read source input n
    if _hr : r.1 = [] then
      throw .malformedObject
    else
      let r' ← readExact r.2 (n - r.1.length)
      return (r.1 ++ r'.1, r'.2)
termination_by n
decreasing_by
  have := List.length_pos_iff.mpr _hr
  omega

/-- The length of the next frame, or nothing at the end of the source. -/
def nextLength (input : CheckedSource) : Call σ (Option ℕ × CheckedSource) := do
  let first ← read source input 1
  if first.1 = [] then
    return (none, first.2)
  let rest ← readExact source first.2 3
  let length := ofBE (first.1 ++ rest.1)
  if length < aeadTagBytes ∨ compressedBlockBytes + aeadTagBytes < length then
    throw .malformedObject
  return (some length, rest.2)

end CheckedSource

/-! ## Opening -/

section opening

variable (A : StreamAead) (R : RawDecoder δ) (source : BackupByteSource σ) (sink : BackupByteSink σ)
  (context : BackupObjectContextV1)

/-- The loop of `authenticateEnvelope`: `length` is the length of the frame to be read. -/
def authenticateLoop : ℕ → CheckedSource → StreamDecryptor → BoundedDecoder δ → ℕ →
    Call σ (BoundedDecoder δ)
  | 0, _, _, _, _ => throw .resourceLimitExceeded
  | rounds + 1, input, decryptor, decoder, length => do
    let frame ← input.readExact source length
    let next ← frame.2.nextLength source
    if next.1.isSome ∧ length ≠ compressedBlockBytes + aeadTagBytes then
      throw .malformedObject
    match next.1 with
    | some nextLength =>
      let decrypted ← orThrow (decryptor.decryptNext A context.canonicalBytes frame.1)
        .authenticationFailed
      checkCancelled source
      let decoder ← decoder.push R sink.write (checkCancelled source) decrypted.1
      authenticateLoop rounds next.2 decrypted.2 decoder nextLength
    | none =>
      let decrypted ← orThrow (decryptor.decryptLast A context.canonicalBytes frame.1)
        .authenticationFailed
      checkCancelled source
      decoder.push R sink.write (checkCancelled source) decrypted

def authenticateEnvelope (input : CheckedSource) (decoder : BoundedDecoder δ) :
    Call σ (BoundedDecoder δ) := do
  let header ← input.readExact source envelopeHeaderBytes
  let noncePrefix ← ofResult (parseHeader header.1)
  let decryptor : StreamDecryptor :=
    { key := context.objectKey, nonce := noncePrefix, position := 0 }
  let first ← header.2.nextLength source
  let length ← orThrow first.1 .malformedObject
  authenticateLoop A R source sink context maxEncryptedBlocksPerObjectV1 first.2 decryptor decoder
    length

/-- **Opening one object**: frames are decrypted and decompressed in one pass, and plaintext is
handed to the sink before the end of the object is known. -/
def openObjectV1 : Call σ Unit := do
  let input ← CheckedSource.new source
  let decoder ← BoundedDecoder.new R
  let decoder ← authenticateEnvelope A R source sink context input decoder
  checkCancelled source
  ofResult decoder.finish

end opening

/-! ## How much is read -/

section bytes

variable (source : BackupByteSource σ)

/-- What was counted after a read of `n` bytes, within the ciphertext limit if it was before. -/
def Counted (input input' : CheckedSource) (n : ℕ) : Prop :=
  input'.bytes = input.bytes + n ∧
    (input.bytes ≤ maxCiphertextObjectBytesV1 → input'.bytes ≤ maxCiphertextObjectBytesV1)

theorem Counted.trans {input input' input'' : CheckedSource} {n m : ℕ} (h : Counted input input' n)
    (h' : Counted input' input'' m) : Counted input input'' (n + m) :=
  ⟨by rw [h'.1, h.1, add_assoc], fun hle => h'.2 (h.2 hle)⟩

/-- A read fills no more than its destination. -/
theorem read_counted (input : CheckedSource) (n : ℕ) (w : World σ) : wp (input.read source n) w
    (fun r _ => r.1.length ≤ n ∧ Counted input r.2 r.1.length) fun _ _ => True := by
  rw [CheckedSource.read, wp_bind]
  refine wp_mono (wp_true _ w) (fun _ w₁ _ => wp_ite (fun _ => ?_) fun _ => ?_) fun _ _ h => h
  · exact ⟨Nat.zero_le _, rfl, id⟩
  rw [wp_bind]
  refine wp_mono (wp_true _ w₁) (fun data w₂ _ => ?_) fun _ _ h => h
  rw [wp_bind]
  refine wp_mono (wp_true _ w₂) (fun _ w₃ _ => ?_) fun _ _ h => h
  refine wp_ite (fun _ => trivial) fun hle => wp_ite (fun _ => trivial) fun hmax => ?_
  rw [wp_pure]
  dsimp only at hle ⊢
  exact ⟨by omega, rfl, fun _ => not_lt.mp hmax⟩

theorem readExact_counted (input : CheckedSource) (n : ℕ) (w : World σ) :
    wp (input.readExact source n) w (fun r _ => r.1.length = n ∧ Counted input r.2 n)
      fun _ _ => True := by
  induction n using Nat.strong_induction_on generalizing input w with
  | _ n ih =>
    rw [CheckedSource.readExact]
    split
    · rename_i hn
      rw [hn]
      exact ⟨rfl, rfl, id⟩
    rw [wp_bind]
    refine wp_mono (read_counted source input n w) (fun r w₁ hr => ?_) fun _ _ h => h
    obtain ⟨hle, hcount⟩ := hr
    split
    · trivial
    rename_i hne
    have := List.length_pos_iff.mpr hne
    rw [wp_bind]
    refine wp_mono (ih _ (by omega) r.2 w₁) (fun r' w₂ hr' => ?_) fun _ _ h => h
    obtain ⟨hlen, hcount'⟩ := hr'
    have hsum : r.1.length + (n - r.1.length) = n := by omega
    rw [wp_pure, List.length_append, hlen]
    exact ⟨hsum, hsum ▸ hcount.trans hcount'⟩

theorem nextLength_counted (input : CheckedSource) (w : World σ) :
    wp (input.nextLength source) w (fun r _ => r.1.isSome → Counted input r.2 4)
      fun _ _ => True := by
  rw [CheckedSource.nextLength, wp_bind]
  refine wp_mono (read_counted source input 1 w) (fun first w₁ h₁ => ?_) fun _ _ h => h
  obtain ⟨hle, hcount⟩ := h₁
  refine wp_ite (fun _ h => by cases h) fun hne => ?_
  have := List.length_pos_iff.mpr hne
  rw [wp_bind]
  refine wp_mono (readExact_counted source first.2 3 w₁) (fun rest w₂ h₂ => ?_) fun _ _ h => h
  refine wp_ite (fun _ => trivial) fun _ _ => ?_
  have hone : first.1.length = 1 := by omega
  exact (hone ▸ hcount).trans h₂.2

/-- **The bound on the rounds is never met**: every round but the last reads a full frame. -/
theorem authenticateLoop_rounds (A : StreamAead) (R : RawDecoder δ) (sink : BackupByteSink σ)
    (context : BackupObjectContextV1) (more rounds : ℕ) (input : CheckedSource)
    (decryptor : StreamDecryptor) (decoder : BoundedDecoder δ) (length : ℕ) (w : World σ)
    (hle : input.bytes ≤ maxCiphertextObjectBytesV1)
    (hlt : maxCiphertextObjectBytesV1 <
      input.bytes + (4 + compressedBlockBytes + aeadTagBytes) * rounds) :
    (authenticateLoop A R source sink context (rounds + more) input decryptor decoder length).run w =
      (authenticateLoop A R source sink context rounds input decryptor decoder length).run w := by
  induction rounds generalizing input decryptor decoder length w with
  | zero => omega
  | succ rounds ih =>
    rw [Nat.add_right_comm, authenticateLoop, authenticateLoop]
    refine run_bind_congr ?_
    refine wp_mono (readExact_counted source input length w) (fun frame w₁ h₁ => ?_) fun _ _ h => h
    refine run_bind_congr ?_
    refine wp_mono (nextLength_counted source frame.2 w₁) (fun next w₂ h₂ => ?_) fun _ _ h => h
    refine run_ite_congr (fun _ => rfl) fun hfull => ?_
    split
    · rename_i nextLength hnext
      rw [hnext] at hfull h₂
      have hcount := h₁.2.trans (h₂ rfl)
      obtain rfl : length = compressedBlockBytes + aeadTagBytes := by
        by_contra hne
        exact hfull ⟨rfl, hne⟩
      refine run_bind_congr (wp_mono (wp_true _ w₂) (fun _ w₃ _ => ?_) fun _ _ h => h)
      refine run_bind_congr (wp_mono (wp_true _ w₃) (fun _ w₄ _ => ?_) fun _ _ h => h)
      refine run_bind_congr (wp_mono (wp_true _ w₄) (fun _ w₅ _ => ?_) fun _ _ h => h)
      refine ih _ _ _ _ w₅ (hcount.2 hle) ?_
      rw [hcount.1]
      rw [mul_add, mul_one] at hlt
      omega
    · rfl

end bytes

/-! ## Reading from an honest source -/

section honest

variable {source : BackupByteSource σ} {sink : BackupByteSink σ} {Rest : σ → Bytes → Prop}
  {w : World σ} {rest : Bytes}

theorem checkCancelled_run (h : Honest source sink Rest) (hR : Rest w.foreign rest) :
    ∃ s, (checkCancelled source).run w = .ok () { w with foreign := s } ∧ Rest s rest := by
  obtain ⟨s, hs, hR'⟩ := cancelled_run h hR
  exact ⟨s, run_bind_ok hs, hR'⟩

namespace CheckedSource

/-- What one read may yield. -/
theorem read_spec (h : Honest source sink Rest) (hR : Rest w.foreign rest) (input : CheckedSource)
    {n : ℕ} (hn : 0 < n) : wp (read source input n) w
      (fun r w' => w'.delivered = w.delivered ∧ ∃ rest', rest = r.1 ++ rest' ∧
        Rest w'.foreign rest' ∧ (input.eof = true ∧ r = ([], input) ∨
          input.eof = false ∧ r.1.length ≤ n ∧ (r.1 = [] → rest = []) ∧
          input.bytes + r.1.length ≤ maxCiphertextObjectBytesV1 ∧
          r.2 = { bytes := input.bytes + r.1.length, eof := r.1 = [] }))
      fun e w' => e = .resourceLimitExceeded ∧ w'.delivered = w.delivered ∧ input.eof = false ∧
        maxCiphertextObjectBytesV1 < input.bytes + min n rest.length := by
  obtain ⟨s₁, h₁, hR₁⟩ := checkCancelled_run h hR
  rw [read, wp_bind, wp_of_ok h₁]
  refine wp_ite (fun heof => ⟨rfl, rest, rfl, hR₁, .inl ⟨heof, rfl⟩⟩) fun heof => ?_
  have hc : 0 < min (min n maxIoChunkBytesV1) (maxCiphertextObjectBytesV1 - input.bytes + 1) := by
    simp only [maxIoChunkBytesV1]
    omega
  obtain ⟨data, s₂, rest', h₂, hle, hend, hrest, hR₂⟩ :=
    read_run (w := { w with foreign := s₁ }) h hR₁ hc
  obtain ⟨s₃, h₃, hR₃⟩ := checkCancelled_run (w := { w with foreign := s₂ }) h hR₂
  have hlen := congrArg List.length hrest
  rw [List.length_append] at hlen
  simp only [wp_bind]
  rw [wp_of_ok h₂, wp_of_ok h₃, if_neg (by omega)]
  refine wp_ite (fun hlim => ⟨rfl, rfl, (Bool.not_eq_true _).mp heof, by omega⟩) fun hlim => ?_
  have hn' : data.length ≤ n := by omega
  exact ⟨rfl, rest', hrest, hR₃, .inr ⟨(Bool.not_eq_true _).mp heof, hn', hend, not_lt.mp hlim, rfl⟩⟩

/-- What `readExact` yields when `rest` is left. -/
def exactOutcome (input : CheckedSource) (rest : Bytes) (n : ℕ) :
    Except BackupErrorCode (Bytes × CheckedSource) :=
  if n = 0 then .ok ([], input)
  else if input.eof then .error .malformedObject
  else if maxCiphertextObjectBytesV1 < input.bytes + min n rest.length then
    .error .resourceLimitExceeded
  else if rest.length < n then .error .malformedObject
  else .ok (rest.take n, { bytes := input.bytes + n, eof := false })

/-- A read in front of `readExact` belongs to it. -/
theorem exactOutcome_append {input : CheckedSource} {data : Bytes} {n : ℕ} (rest : Bytes)
    (hdata : data ≠ []) (heof : input.eof = false) (hle : data.length ≤ n)
    (hlim : input.bytes + data.length ≤ maxCiphertextObjectBytesV1) :
    exactOutcome input (data ++ rest) n =
      (exactOutcome { bytes := input.bytes + data.length, eof := false } rest
        (n - data.length)).map fun r => (data ++ r.1, r.2) := by
  have hpos := List.length_pos_iff.mpr hdata
  have hmin : min n (data ++ rest).length = data.length + min (n - data.length) rest.length := by
    rw [List.length_append]
    omega
  simp only [exactOutcome]
  rw [if_neg (show ¬ n = 0 by omega), heof, if_neg Bool.false_ne_true, hmin]
  by_cases hn : n - data.length = 0
  · obtain rfl : n = data.length := by omega
    rw [if_pos hn, if_neg (by omega), if_neg (by rw [List.length_append]; omega), List.take_left]
    simp [Except.map]
  · rw [if_neg hn, if_neg Bool.false_ne_true, add_assoc]
    split_ifs with h1 h2 h3 h3
    · rfl
    · rfl
    · rw [List.length_append] at h2
      omega
    · rw [List.length_append] at h2
      omega
    · rw [Except.map, List.take_append, List.take_of_length_le hle]
      congr 3
      omega

/-- **Short reads do not show.** -/
theorem readExact_spec (h : Honest source sink Rest) (hR : Rest w.foreign rest)
    (input : CheckedSource) (n : ℕ) : wp (readExact source input n) w
      (fun r w' => exactOutcome input rest n = .ok r ∧ w'.delivered = w.delivered ∧
        Rest w'.foreign (rest.drop n))
      fun e w' => exactOutcome input rest n = .error e ∧ w'.delivered = w.delivered := by
  induction n using Nat.strong_induction_on generalizing w rest input with
  | _ n ih =>
    rw [readExact]
    split
    · rename_i hn
      subst hn
      exact ⟨rfl, rfl, hR⟩
    rename_i hn
    rw [wp_bind]
    refine wp_mono (read_spec h hR input (Nat.pos_of_ne_zero hn)) (fun r w' hr => ?_)
      fun e w' he => ?_
    · obtain ⟨hdel, rest', hrest, hR', ⟨heof, rfl⟩ | ⟨heof, hle, hend, hlim, hr2⟩⟩ := hr
      · rw [dif_pos rfl, wp_throw, exactOutcome, if_neg hn, if_pos heof]
        exact ⟨rfl, hdel⟩
      · split
        · rename_i hnil
          have hlen : rest.length = 0 := by rw [hend hnil, List.length_nil]
          rw [wp_throw, exactOutcome, if_neg hn, heof, if_neg Bool.false_ne_true,
            if_neg (by omega), if_pos (by omega)]
          exact ⟨rfl, hdel⟩
        · rename_i hne
          have hpos := List.length_pos_iff.mpr hne
          have hstep := exactOutcome_append rest' hne heof hle hlim
          rw [← hrest] at hstep
          have hnext := ih (n - r.1.length) (by omega) hR' r.2
          rw [hr2, decide_eq_false hne] at hnext
          rw [hr2, decide_eq_false hne, wp_bind]
          refine wp_mono hnext (fun r' w'' hr' => ?_) fun e w'' he => ?_
          · rw [wp_pure, hstep, hr'.1]
            refine ⟨rfl, hr'.2.1.trans hdel, ?_⟩
            rw [hrest, List.drop_append, List.drop_of_length_le hle, List.nil_append]
            exact hr'.2.2
          · rw [hstep, he.1]
            exact ⟨rfl, he.2.trans hdel⟩
    · obtain ⟨rfl, hdel, heof, hlim⟩ := he
      rw [exactOutcome, if_neg hn, heof, if_neg (by simp), if_pos hlim]
      exact ⟨rfl, hdel⟩

/-- What `nextLength` yields when `rest` is left. -/
def lengthOutcome (input : CheckedSource) (rest : Bytes) :
    Except BackupErrorCode (Option ℕ × CheckedSource) :=
  if input.eof then .ok (none, input)
  else if maxCiphertextObjectBytesV1 < input.bytes + min 1 rest.length then
    .error .resourceLimitExceeded
  else if rest = [] then .ok (none, { bytes := input.bytes, eof := true })
  else do
    let r ← exactOutcome { bytes := input.bytes + 1, eof := false } (rest.drop 1) 3
    let length := ofBE (rest.take 1 ++ r.1)
    if length < aeadTagBytes ∨ compressedBlockBytes + aeadTagBytes < length then
      .error .malformedObject
    else .ok (some length, r.2)

theorem nextLength_spec (h : Honest source sink Rest) (hR : Rest w.foreign rest)
    (input : CheckedSource) : wp (nextLength source input) w
      (fun r w' => lengthOutcome input rest = .ok r ∧ w'.delivered = w.delivered ∧
        Rest w'.foreign (if r.1.isSome then rest.drop 4 else rest))
      fun e w' => lengthOutcome input rest = .error e ∧ w'.delivered = w.delivered := by
  rw [nextLength, wp_bind]
  refine wp_mono (read_spec h hR input one_pos) (fun r w' hr => ?_) fun e w' he => ?_
  · obtain ⟨hdel, rest', hrest, hR', ⟨heof, rfl⟩ | ⟨heof, hle, hend, hlim, hr2⟩⟩ := hr
    · rw [if_pos rfl, wp_pure, lengthOutcome, if_pos heof]
      rw [List.nil_append] at hrest
      exact ⟨rfl, hdel, by rwa [hrest]⟩
    by_cases hnil : r.1 = []
    · obtain rfl := hend hnil
      rw [hnil, List.length_nil, Nat.add_zero] at hlim
      rw [if_pos hnil, wp_pure, lengthOutcome, heof, if_neg Bool.false_ne_true,
        if_neg (by rw [List.length_nil]; omega), if_pos rfl, hr2, hnil]
      rw [hnil, List.nil_append] at hrest
      subst hrest
      exact ⟨rfl, hdel, hR'⟩
    · have hone : r.1.length = 1 := by
        have := List.length_pos_iff.mpr hnil
        omega
      have htake : rest.take 1 = r.1 := by rw [hrest, ← hone, List.take_left]
      have hdrop : rest.drop 1 = rest' := by rw [hrest, ← hone, List.drop_left]
      have hne : rest ≠ [] := by
        rintro rfl
        exact hnil (List.append_eq_nil_iff.mp hrest.symm).1
      rw [hone] at hlim hr2
      rw [decide_eq_false hnil] at hr2
      rw [if_neg hnil, wp_bind, lengthOutcome, heof, if_neg Bool.false_ne_true,
        if_neg (by omega), if_neg hne, htake, hdrop, hr2]
      refine wp_mono (readExact_spec h hR' _ 3) (fun r' w'' hr' => ?_) fun e w'' he => ?_
      · obtain ⟨hout, hdel', hR''⟩ := hr'
        rw [hout]
        refine wp_ite (fun hbad => ?_) fun hgood => ?_
        · exact ⟨if_pos hbad, hdel'.trans hdel⟩
        · refine ⟨if_neg hgood, hdel'.trans hdel, ?_⟩
          rw [← hdrop, List.drop_drop] at hR''
          exact hR''
      · rw [he.1]
        exact ⟨rfl, he.2.trans hdel⟩
  · obtain ⟨rfl, hdel, heof, hlim⟩ := he
    rw [lengthOutcome, heof, if_neg Bool.false_ne_true, if_pos hlim]
    exact ⟨rfl, hdel⟩

/-! ## The outcomes, case by case -/

variable {input : CheckedSource}

theorem exactOutcome_of_le {n : ℕ} (heof : input.eof = false) (hn : 0 < n) (hle : n ≤ rest.length)
    (hlim : input.bytes + n ≤ maxCiphertextObjectBytesV1) :
    exactOutcome input rest n = .ok (rest.take n, { bytes := input.bytes + n, eof := false }) := by
  rw [exactOutcome, if_neg hn.ne', heof, if_neg Bool.false_ne_true, min_eq_left hle,
    if_neg (not_lt.mpr hlim), if_neg (not_lt.mpr hle)]

theorem exactOutcome_eq_ok {n : ℕ} {r : Bytes × CheckedSource} (hn : 0 < n)
    (h : exactOutcome input rest n = .ok r) : n ≤ rest.length ∧
      input.bytes + n ≤ maxCiphertextObjectBytesV1 ∧
      r = (rest.take n, { bytes := input.bytes + n, eof := false }) := by
  rw [exactOutcome, if_neg hn.ne'] at h
  split_ifs at h with h1 h2 h3
  cases h
  exact ⟨by omega, by omega, rfl⟩

theorem lengthOutcome_nil (heof : input.eof = false)
    (hlim : input.bytes ≤ maxCiphertextObjectBytesV1) :
    lengthOutcome input [] = .ok (none, { bytes := input.bytes, eof := true }) := by
  rw [lengthOutcome, heof, if_neg Bool.false_ne_true, if_neg (by simpa using hlim), if_pos rfl]

theorem lengthOutcome_toBE {n : ℕ} (heof : input.eof = false)
    (hlim : input.bytes + 4 ≤ maxCiphertextObjectBytesV1)
    (hn : aeadTagBytes ≤ n ∧ n ≤ compressedBlockBytes + aeadTagBytes) :
    lengthOutcome input (toBE 4 n ++ rest) =
      .ok (some n, { bytes := input.bytes + 4, eof := false }) := by
  have hlen : (toBE 4 n ++ rest).length = 4 + rest.length := by simp
  have hval : ofBE (toBE 4 n) = n := ofBE_toBE (by
    simp only [compressedBlockBytes, aeadTagBytes] at hn
    omega)
  have htake : (toBE 4 n ++ rest).take 1 ++ ((toBE 4 n ++ rest).drop 1).take 3 = toBE 4 n := by
    rw [← List.take_add, List.take_left' (toBE_length 4 n)]
  have hne : toBE 4 n ++ rest ≠ [] := by
    intro h0
    rw [h0, List.length_nil] at hlen
    omega
  rw [lengthOutcome, heof, if_neg Bool.false_ne_true, if_neg (by omega), if_neg hne,
    exactOutcome_of_le rfl (by omega) (by rw [List.length_drop]; omega)
      (show input.bytes + 1 + 3 ≤ _ by omega)]
  change (if _ then _ else _) = _
  rw [htake, hval, if_neg (by omega)]

theorem lengthOutcome_eq_none {input' : CheckedSource} (heof : input.eof = false)
    (h : lengthOutcome input rest = .ok (none, input')) : rest = [] := by
  rw [lengthOutcome, heof, if_neg Bool.false_ne_true] at h
  split_ifs at h with h1 h2
  · exact h2
  · cases hx : exactOutcome { bytes := input.bytes + 1, eof := false } (rest.drop 1) 3 with
    | error e =>
      rw [hx] at h
      cases h
    | ok r =>
      rw [hx] at h
      change (if _ then _ else _) = _ at h
      split_ifs at h
      cases h

theorem lengthOutcome_eq_some {n : ℕ} {input' : CheckedSource}
    (h : lengthOutcome input rest = .ok (some n, input')) :
    rest = toBE 4 n ++ rest.drop 4 ∧ (aeadTagBytes ≤ n ∧ n ≤ compressedBlockBytes + aeadTagBytes) ∧
      input.bytes + 4 ≤ maxCiphertextObjectBytesV1 ∧
      input' = { bytes := input.bytes + 4, eof := false } := by
  rw [lengthOutcome] at h
  split_ifs at h with h0 h1 h2
  · cases h
  · cases h
  cases hx : exactOutcome { bytes := input.bytes + 1, eof := false } (rest.drop 1) 3 with
  | error e =>
    rw [hx] at h
    cases h
  | ok r =>
    rw [hx] at h
    change (if _ then _ else _) = _ at h
    obtain ⟨hle, hlim, rfl⟩ := exactOutcome_eq_ok (by omega) hx
    rw [← List.take_add] at h
    split_ifs at h with hbad
    cases h
    rw [List.length_drop] at hle
    have h4 : (rest.take 4).length = 4 := by
      rw [List.length_take]
      omega
    refine ⟨?_, by omega, hlim, rfl⟩
    have hval := toBE_ofBE (rest.take 4)
    rw [h4] at hval
    rw [hval, List.take_append_drop]

end CheckedSource

end honest

end KChat.Backup
