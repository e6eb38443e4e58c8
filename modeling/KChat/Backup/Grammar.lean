import KChat.Backup.Chunking
import KChat.Lib.StoredZstd

/-!
# The V1 grammar and the reader that accepts it

* `Frames A context nonce i rest c`: `rest` is a nonempty sequence of frames, the first with counter
  `i`, that decrypts to `c`; `frames_unique`, `frames_cases`.
* `V1Grammar A frame context b p`: the byte string `b` is an object with content `p`.
* `authenticateLoop_grammar`: the step and run lemma of the frame loop.
* **`openObjectV1_memory`**: on a byte string in memory the reader succeeds iff it is in the grammar,
  and delivers the content; **`openObjectV1_iff_grammar`**: so it does on every honest source.
-/

namespace KChat.Backup

open Lib BoundedDecoder

variable {σ τ δ : Type}

/-! ## The grammar -/

section grammar

variable (A : StreamAead) (frame : Bytes → Option Bytes) (context : BackupObjectContextV1)

/-- **A nonempty sequence of frames** to the end of the byte string: all but the last are full NEXT
blocks, counted from `i`; the last is a LAST block. -/
inductive Frames (nonce : Bytes) : ℕ → Bytes → Bytes → Prop
  | last {i ct msg} : aeadTagBytes ≤ ct.length → ct.length ≤ compressedBlockBytes + aeadTagBytes →
      A.decrypt context.objectKey nonce i true context.canonicalBytes ct = some msg →
      Frames nonce i (frameOf ct) msg
  | next {i ct msg rest c} : ct.length = compressedBlockBytes + aeadTagBytes →
      A.decrypt context.objectKey nonce i false context.canonicalBytes ct = some msg →
      Frames nonce (i + 1) rest c → Frames nonce i (frameOf ct ++ rest) (msg ++ c)

/-- **The V1 grammar**: `b` is an object with content `p`. -/
def V1Grammar (b p : Bytes) : Prop :=
  b.length ≤ maxCiphertextObjectBytesV1 ∧ ∃ nonce rest c, nonce.length = streamNoncePrefixBytes ∧
    b = serializeHeader nonce ++ rest ∧ Frames A context nonce 0 rest c ∧ frame c = some p ∧
    (∃ h, FrameHeader.parse c = some h ∧ GoodHeader h) ∧ p.length ≤ maxPlaintextObjectBytesV1

variable {A frame context} {nonce : Bytes} {i n : ℕ} {rest c : Bytes}

theorem V1Grammar.parts {b p : Bytes} (h : V1Grammar A frame context b p) :
    b.length ≤ maxCiphertextObjectBytesV1 ∧ envelopeHeaderBytes ≤ b.length ∧
      ∃ nonce c, parseHeader (b.take envelopeHeaderBytes) = .ok nonce ∧
        Frames A context nonce 0 (b.drop envelopeHeaderBytes) c ∧ Fits frame c c p := by
  obtain ⟨hlen, nonce, rest, c, hnonce, rfl, hframes, hc, hheader, hsize⟩ := h
  have h29 : (serializeHeader nonce).length = envelopeHeaderBytes := by
    rw [serializeHeader_length, hnonce]
    rfl
  refine ⟨hlen, ?_, nonce, c, ?_, ?_, hc, List.prefix_refl c, hheader, hsize⟩
  · rw [List.length_append, h29]
    exact Nat.le_add_right _ _
  · rw [List.take_left' h29]
    exact parseHeader_eq_ok.mpr rfl
  · rwa [List.drop_left' h29]

theorem frames_eq_toBE (h : Frames A context nonce i rest c) : ∃ n rest',
    rest = toBE 4 n ++ rest' ∧ aeadTagBytes ≤ n ∧ n ≤ compressedBlockBytes + aeadTagBytes := by
  cases h with
  | last h1 h2 => exact ⟨_, _, rfl, h1, h2⟩
  | @next i ct msg rest c hct =>
    exact ⟨_, ct ++ rest, by rw [frameOf, List.append_assoc], by omega, by omega⟩

theorem frames_cases (h : Frames A context nonce i (toBE 4 n ++ rest) c)
    (hn : n ≤ compressedBlockBytes + aeadTagBytes) :
    (rest.length = n ∧
      A.decrypt context.objectKey nonce i true context.canonicalBytes rest = some c) ∨
    (n = compressedBlockBytes + aeadTagBytes ∧ n ≤ rest.length ∧ ∃ msg c',
      A.decrypt context.objectKey nonce i false context.canonicalBytes (rest.take n) = some msg ∧
        c = msg ++ c' ∧ Frames A context nonce (i + 1) (rest.drop n) c') := by
  have hval : ∀ {m}, m ≤ compressedBlockBytes + aeadTagBytes → ofBE (toBE 4 m) = m := fun hm =>
    ofBE_toBE (by
      simp only [compressedBlockBytes, aeadTagBytes] at hm
      omega)
  generalize hb : toBE 4 n ++ rest = b at h
  cases h with
  | @last i ct msg h1 h2 hdec =>
    obtain ⟨hlen, rfl⟩ := List.append_inj hb (by simp)
    have := congrArg ofBE hlen
    rw [hval hn, hval h2] at this
    exact .inl ⟨this.symm, hdec⟩
  | @next i ct msg rest' c' hct hdec hrest =>
    rw [frameOf, List.append_assoc] at hb
    obtain ⟨hlen, rfl⟩ := List.append_inj hb (by simp)
    have := congrArg ofBE hlen
    rw [hval hn, hval hct.le] at this
    rw [this, List.take_left, List.drop_left, List.length_append]
    exact .inr ⟨hct, Nat.le_add_right _ _, msg, c', hdec, rfl, hrest⟩

theorem frames_unique {c' : Bytes} (h : Frames A context nonce i rest c)
    (h' : Frames A context nonce i rest c') : c = c' := by
  induction h generalizing c' with
  | @last i ct msg h1 h2 hdec =>
    rcases frames_cases h' h2 with ⟨-, hdec'⟩ | ⟨-, -, msg', c₁, -, -, hrest⟩
    · exact Option.some.inj (hdec.symm.trans hdec')
    · rw [List.drop_length] at hrest
      obtain ⟨n, rest', hnil, -⟩ := frames_eq_toBE hrest
      simp [toBE] at hnil
  | @next i ct msg rest c hct hdec hrest ih =>
    rw [frameOf, List.append_assoc] at h'
    rcases frames_cases h' hct.le with ⟨hlen, -⟩ | ⟨-, -, msg', c₁, hdec', rfl, hrest'⟩
    · obtain ⟨n, rest', rfl, -⟩ := frames_eq_toBE hrest
      simp [toBE] at hlen
    · rw [List.take_left, hdec] at hdec'
      rw [List.drop_left] at hrest'
      rw [Option.some.inj hdec', ih hrest']

theorem V1Grammar.unique {b p p' : Bytes} (h : V1Grammar A frame context b p)
    (h' : V1Grammar A frame context b p') : p = p' := by
  obtain ⟨-, -, nonce, c, hnonce, hframes, hfits⟩ := h.parts
  obtain ⟨-, -, nonce', c', hnonce', hframes', hfits'⟩ := h'.parts
  obtain rfl : nonce = nonce' := Except.ok.inj (hnonce.symm.trans hnonce')
  obtain rfl := frames_unique hframes hframes'
  exact Option.some.inj (hfits.frame_eq.symm.trans hfits'.frame_eq)

end grammar

/-! ## The frame loop on a byte string in memory -/

section memory

variable {A : StreamAead} {R : RawDecoder δ} {frame : Bytes → Option Bytes}
  {context : BackupObjectContextV1} (hsound : R.Sound frame windowLogMax)
  (hdelim : SelfDelimiting frame) (hlive : R.Live frame windowLogMax)

theorem memory_checks : Checks True (checkCancelled (memorySource 1)) := fun _ => rfl

theorem memory_emits : Emits True memorySink.write := by
  intro chunk w
  change _ = _
  simp [World.bytes]

theorem push_foreign (d : BoundedDecoder δ) (bytes : Bytes) (w : World Bytes) :
    wp (push R memorySink.write (checkCancelled (memorySource 1)) d bytes) w
      (fun _ w' => w'.foreign = w.foreign) fun _ w' => w'.foreign = w.foreign := by
  refine Sim.keeps (I := fun w' => w'.foreign = w.foreign) (sim_push R (fun _ _ h => h)
    (fun chunk => Sim.of_keeps fun v hv => ?_) (Sim.of_keeps fun v hv => ?_) d bytes) rfl
  · exact hv
  · exact hv

include hsound hdelim hlive

theorem push_memory {d : BoundedDecoder δ} {c out start bytes : Bytes} {w : World Bytes}
    (h : ∃ idle ≤ 2, Fed R frame True d c out idle) (hw : w.bytes = start ++ out) :
    wp (push R memorySink.write (checkCancelled (memorySource 1)) d bytes) w
      (fun d' w' => Pushed R frame True start (c ++ bytes) (if bytes = [] then 3 else 2) d' w' ∧
        w'.foreign = w.foreign)
      fun _ _ => ∀ c' p, ¬ Fits frame (c ++ bytes) c' p := by
  refine wp_mono (wp_and (push_fed hsound (fun _ => hdelim) (fun _ => hlive) memory_emits
    memory_checks h hw) (push_foreign d bytes w)) (fun _ _ h => h) fun _ _ h => ?_
  obtain ⟨⟨out', -, -, hquiet⟩, -⟩ := h
  exact hquiet trivial

/-- **The frame loop** succeeds exactly on a sequence of frames whose content is acceptable. -/
theorem authenticateLoop_grammar {nonce start : Bytes} (rounds i length : ℕ) (input : CheckedSource)
    (decoder : BoundedDecoder δ) (fed out : Bytes) (w : World Bytes)
    (heof : input.eof = false) (hi : i + rounds ≤ maxEncryptedBlocksPerObjectV1)
    (hrounds : maxCiphertextObjectBytesV1 < input.bytes + 65556 * rounds)
    (hlength : aeadTagBytes ≤ length ∧ length ≤ compressedBlockBytes + aeadTagBytes)
    (hfed : ∃ idle ≤ 2, Fed R frame True decoder fed out idle) (hw : w.bytes = start ++ out) :
    wp (authenticateLoop A R (memorySource 1) memorySink context rounds input
        { key := context.objectKey, nonce := nonce, position := i } decoder length) w
      (fun d' w' => ∃ c, Frames A context nonce i (toBE 4 length ++ w.foreign) c ∧
        input.bytes + w.foreign.length ≤ maxCiphertextObjectBytesV1 ∧
        Pushed R frame True start (fed ++ c) 3 d' w')
      fun _ _ => ¬ ∃ c p, Frames A context nonce i (toBE 4 length ++ w.foreign) c ∧
        input.bytes + w.foreign.length ≤ maxCiphertextObjectBytesV1 ∧
        Fits frame (fed ++ c) (fed ++ c) p := by
  have hmem : Honest (memorySource 1) memorySink Eq := memory_honest one_pos
  induction rounds generalizing i length input decoder fed out w with
  | zero =>
    rintro ⟨c, p, -, hsize, -⟩
    omega
  | succ rounds ih =>
    have hpos : 0 < length := by
      simp only [aeadTagBytes] at hlength
      omega
    rw [authenticateLoop, wp_bind]
    refine wp_mono (CheckedSource.readExact_spec hmem rfl input length) (fun r w₁ h₁ => ?_)
      fun e w₁ h₁ => ?_
    swap
    · -- the frame is cut short, or longer than the limit
      rintro ⟨c, p, hframes, hsize, -⟩
      have hle : length ≤ w.foreign.length := by
        rcases frames_cases hframes hlength.2 with ⟨heq, -⟩ | ⟨-, hle, -⟩ <;> omega
      rw [CheckedSource.exactOutcome_of_le heof hpos hle (by omega)] at h₁
      cases h₁.1
    obtain ⟨hok, hdel₁, hrest₁⟩ := h₁
    obtain ⟨hle, hlim, rfl⟩ := CheckedSource.exactOutcome_eq_ok hpos hok
    rw [wp_bind]
    refine wp_mono (CheckedSource.nextLength_spec hmem hrest₁ _) (fun next w₂ h₂ => ?_)
      fun e w₂ h₂ => ?_
    swap
    · -- no length field stands behind the frame
      rintro ⟨c, p, hframes, hsize, -⟩
      rcases frames_cases hframes hlength.2 with ⟨heq, -⟩ | ⟨-, -, msg, c', -, -, hrest⟩
      · rw [List.drop_of_length_le heq.le, CheckedSource.lengthOutcome_nil rfl hlim] at h₂
        cases h₂.1
      · obtain ⟨n, rest', hdrop, hn⟩ := frames_eq_toBE hrest
        have hlen := congrArg List.length hdrop
        rw [List.length_drop, List.length_append, toBE_length] at hlen
        rw [hdrop, CheckedSource.lengthOutcome_toBE rfl (by dsimp only; omega) hn] at h₂
        cases h₂.1
    obtain ⟨hnext, hdel₂, hrest₂⟩ := h₂
    have hw₂ : w₂.bytes = start ++ out := by rw [← hw, World.bytes, hdel₂, hdel₁, World.bytes]
    obtain ⟨nextLength, input₂⟩ := next
    cases nextLength with
    | none =>
      have hlen : w.foreign.length = length := by
        have := congrArg List.length (CheckedSource.lengthOutcome_eq_none rfl hnext)
        rw [List.length_drop, List.length_nil] at this
        omega
      refine wp_ite (fun hbad => by simp at hbad) fun _ => ?_
      simp only [List.take_of_length_le hlen.le]
      have hcases : ∀ {c}, Frames A context nonce i (toBE 4 length ++ w.foreign) c →
          A.decrypt context.objectKey nonce i true context.canonicalBytes w.foreign = some c := by
        intro c hframes
        rcases frames_cases hframes hlength.2 with ⟨-, hdec⟩ | ⟨-, -, msg, c', -, -, hrest⟩
        · exact hdec
        · rw [List.drop_of_length_le hlen.le] at hrest
          obtain ⟨n, rest', hnil, -⟩ := frames_eq_toBE hrest
          simp [toBE] at hnil
      rw [wp_bind]
      refine wp_orThrow (fun msg hdec => ?_) fun hdec => ?_
      swap
      · rintro ⟨c, p, hframes, -⟩
        rw [StreamDecryptor.decryptLast, hcases hframes] at hdec
        cases hdec
      rw [wp_bind]
      refine wp_mono (memory_checks w₂) (fun _ w₃ hw₃ => ?_) fun _ _ h => absurd trivial h.2
      rw [hw₂] at hw₃
      refine wp_mono (push_memory hsound hdelim hlive hfed hw₃) (fun d' w' hd' => ?_)
        fun e w' hfits => ?_
      · refine ⟨msg, ?_, by omega, hd'.1.mono (by split_ifs <;> omega)⟩
        have := Frames.last (A := A) (by omega) (by omega) hdec
        rwa [frameOf, hlen] at this
      · rintro ⟨c, p, hframes, -, hfit⟩
        obtain rfl : msg = c := Option.some.inj (hdec.symm.trans (hcases hframes))
        exact hfits _ _ hfit
    | some n =>
      obtain ⟨hdrop, hn, hlim', rfl⟩ := CheckedSource.lengthOutcome_eq_some hnext
      have hlen := congrArg List.length hdrop
      rw [List.length_drop, List.length_append, toBE_length] at hlen
      refine wp_ite (fun hbad => ?_) fun hgood => ?_
      · -- a short frame that is not the last
        rintro ⟨c, p, hframes, -⟩
        rcases frames_cases hframes hlength.2 with ⟨heq, -⟩ | ⟨heq, -⟩
        · omega
        · exact hbad.2 heq
      have hfull : length = compressedBlockBytes + aeadTagBytes := by
        by_contra hne
        exact hgood ⟨rfl, hne⟩
      have hcases : ∀ {c}, Frames A context nonce i (toBE 4 length ++ w.foreign) c → ∃ msg c',
          A.decrypt context.objectKey nonce i false context.canonicalBytes
            (w.foreign.take length) = some msg ∧ c = msg ++ c' ∧
          Frames A context nonce (i + 1) (w.foreign.drop length) c' := by
        intro c hframes
        rcases frames_cases hframes hlength.2 with ⟨heq, -⟩ | ⟨-, -, hnext⟩
        · omega
        · exact hnext
      rw [wp_bind, StreamDecryptor.decryptNext_of_lt]
      swap
      · change i < streamCounterMax
        simp only [streamCounterMax, maxEncryptedBlocksPerObjectV1] at hi ⊢
        omega
      refine wp_orThrow (fun r hr => ?_) fun hnone => ?_
      swap
      · rintro ⟨c, p, hframes, -⟩
        obtain ⟨msg, c', hdec, -⟩ := hcases hframes
        rw [hdec] at hnone
        cases hnone
      obtain ⟨msg, hdec, rfl⟩ := Option.map_eq_some_iff.mp hr
      have hmsg : msg ≠ [] := by
        have := A.decrypt_length hdec
        rw [List.length_take, min_eq_left hle, hfull] at this
        rintro rfl
        simp [compressedBlockBytes, aeadTagBytes, tagBytes] at this
      rw [wp_bind]
      refine wp_mono (wp_and (memory_checks w₂) (show wp _ w₂ (fun _ w₃ => w₃.foreign = w₂.foreign)
        (fun _ _ => True) from rfl)) (fun _ w₃ hw₃ => ?_) fun _ _ h => absurd trivial h.1.2
      obtain ⟨hbytes₃, hforeign₃⟩ := hw₃
      rw [hw₂] at hbytes₃
      rw [wp_bind]
      refine wp_mono (push_memory hsound hdelim hlive hfed hbytes₃) (fun d' w' hd' => ?_)
        fun e w' hfits => ?_
      · obtain ⟨⟨out', hw', hidle'⟩, hforeign'⟩ := hd'
        rw [if_neg hmsg] at hidle'
        have hf : w'.foreign = (w.foreign.drop length).drop 4 :=
          hforeign'.trans (hforeign₃.trans hrest₂)
        have hback : toBE 4 n ++ w'.foreign = w.foreign.drop length := by rw [hf, ← hdrop]
        rw [← hf] at hlen
        refine wp_mono (ih (i + 1) n _ d' (fed ++ msg) out' w' rfl (by omega) ?_ hn hidle' hw')
          (fun d'' w'' hd'' => ?_) fun e w'' he => ?_
        · simp only [compressedBlockBytes, aeadTagBytes] at hfull
          dsimp only
          omega
        · obtain ⟨c', hframes, hsize, hpushed⟩ := hd''
          rw [hback] at hframes
          dsimp only at hsize
          refine ⟨msg ++ c', ?_, by omega, by rwa [← List.append_assoc]⟩
          have hct : (w.foreign.take length).length = length := by
            rw [List.length_take, min_eq_left hle]
          have := Frames.next (hct.trans hfull) hdec hframes
          rwa [frameOf, hct, List.append_assoc, List.take_append_drop] at this
        · rintro ⟨c, p, hframes, hsize, hfit⟩
          obtain ⟨msg', c', hdec', rfl, hrest⟩ := hcases hframes
          obtain rfl : msg = msg' := Option.some.inj (hdec.symm.trans hdec')
          refine he ⟨c', p, by rwa [hback], by dsimp only; omega, by rwa [List.append_assoc]⟩
      · rintro ⟨c, p, hframes, -, hfit⟩
        obtain ⟨msg', c', hdec', rfl, -⟩ := hcases hframes
        obtain rfl : msg = msg' := Option.some.inj (hdec.symm.trans hdec')
        refine hfits _ p { hfit with isPrefix := ?_ }
        rw [← List.append_assoc]
        exact List.prefix_append _ _

variable (A context) in
/-- **The reader on a byte string in memory** succeeds iff it is in the grammar, and then it has
delivered the content. -/
theorem openObjectV1_memory (w : World Bytes) :
    wp (openObjectV1 A R (memorySource 1) memorySink context) w
      (fun _ w' => ∃ p, V1Grammar A frame context w.foreign p ∧ w'.bytes = w.bytes ++ p)
      fun _ _ => ¬ ∃ p, V1Grammar A frame context w.foreign p := by
  have hmem : Honest (memorySource 1) memorySink Eq := memory_honest one_pos
  obtain ⟨d, d', hd, hd'⟩ := hlive.ready
  -- the first steps do nothing but prepare
  have hnew : (CheckedSource.new (memorySource 1)).run w = .ok { bytes := 0, eof := false } w := rfl
  have hdec : (BoundedDecoder.new R).run w = .ok (fresh d') w := by
    rw [BoundedDecoder.new, hd]
    change (orThrow (R.setWindowLogMax d windowLogMax) BackupErrorCode.invalidState >>= _).run w = _
    rw [hd']
    rfl
  rw [openObjectV1, wp_bind, wp_of_ok hnew, wp_bind, wp_of_ok hdec, wp_bind, authenticateEnvelope,
    wp_bind]
  refine wp_mono (CheckedSource.readExact_spec hmem rfl _ _) (fun r w₁ h₁ => ?_) fun e w₁ h₁ => ?_
  swap
  · rintro ⟨p, hgram⟩
    obtain ⟨-, hle, -⟩ := hgram.parts
    rw [CheckedSource.exactOutcome_of_le rfl (by decide) hle (by decide)] at h₁
    cases h₁.1
  obtain ⟨hok, hdel₁, hrest₁⟩ := h₁
  obtain ⟨hle, hlim, rfl⟩ := CheckedSource.exactOutcome_eq_ok (by decide) hok
  rw [wp_bind]
  refine wp_ofResult (fun nonce hnonce => ?_) fun e he => ?_
  swap
  · rintro ⟨p, hgram⟩
    obtain ⟨-, -, nonce, c, hnonce, -⟩ := hgram.parts
    rw [hnonce] at he
    cases he
  have hparts : ∀ {p}, V1Grammar A frame context w.foreign p → ∃ c,
      w.foreign.length ≤ maxCiphertextObjectBytesV1 ∧
        Frames A context nonce 0 (w.foreign.drop envelopeHeaderBytes) c ∧ Fits frame c c p := by
    intro p hgram
    obtain ⟨hlen, -, nonce', c, hnonce', hframes, hfits⟩ := hgram.parts
    obtain rfl : nonce = nonce' := Except.ok.inj (hnonce.symm.trans hnonce')
    exact ⟨c, hlen, hframes, hfits⟩
  rw [wp_bind]
  refine wp_mono (CheckedSource.nextLength_spec hmem hrest₁ _) (fun first w₂ h₂ => ?_)
    fun e w₂ h₂ => ?_
  swap
  · rintro ⟨p, hgram⟩
    obtain ⟨c, -, hframes, -⟩ := hparts hgram
    obtain ⟨n, rest, hdrop, hn⟩ := frames_eq_toBE hframes
    rw [hdrop, CheckedSource.lengthOutcome_toBE rfl
      (show 0 + envelopeHeaderBytes + 4 ≤ maxCiphertextObjectBytesV1 by decide) hn] at h₂
    cases h₂.1
  obtain ⟨hnext, hdel₂, hrest₂⟩ := h₂
  obtain ⟨length, input⟩ := first
  cases length with
  | none =>
    rintro ⟨p, hgram⟩
    obtain ⟨c, -, hframes, -⟩ := hparts hgram
    rw [CheckedSource.lengthOutcome_eq_none rfl hnext] at hframes
    obtain ⟨n, rest, hnil, -⟩ := frames_eq_toBE hframes
    simp [toBE] at hnil
  | some n =>
    obtain ⟨hdrop, hn, hlim', rfl⟩ := CheckedSource.lengthOutcome_eq_some hnext
    have hfed : Fed R frame True (fresh d') [] [] 0 := fresh_fed hd hd'
    have hw₂ : w₂.bytes = w.bytes ++ [] := by
      rw [List.append_nil, World.bytes, hdel₂, hdel₁, World.bytes]
    have hback : toBE 4 n ++ w₂.foreign = w.foreign.drop envelopeHeaderBytes := by
      rw [hdrop]
      exact congrArg (toBE 4 n ++ ·) hrest₂
    have hlen := congrArg List.length hback
    rw [List.length_append, toBE_length, List.length_drop] at hlen
    rw [wp_bind]
    change wp (authenticateLoop A R (memorySource 1) memorySink context _ _ _ _ n) w₂ _ _
    refine wp_mono (authenticateLoop_grammar hsound hdelim hlive _ 0 n _ _ [] [] w₂ rfl le_rfl
      (show maxCiphertextObjectBytesV1 <
        0 + envelopeHeaderBytes + 4 + 65556 * maxEncryptedBlocksPerObjectV1 by decide) hn
      ⟨0, Nat.zero_le _, hfed⟩ hw₂) (fun d'' w' hd'' => ?_) fun e w' he => ?_
    swap
    · rintro ⟨p, hgram⟩
      obtain ⟨c, hsize, hframes, hfits⟩ := hparts hgram
      refine he ⟨c, p, by rwa [hback], ?_, hfits⟩
      dsimp only
      omega
    obtain ⟨c, hframes, hsize, out, hw', idle, -, hfed'⟩ := hd''
    rw [hback] at hframes
    rw [List.nil_append] at hfed'
    rw [wp_bind]
    refine wp_mono (memory_checks w') (fun _ w'' hw'' => ?_) fun _ _ h => absurd trivial h.2
    refine wp_ofResult (fun _ hfinish => ?_) fun e hfinish => ?_
    · obtain ⟨hheader, hfin⟩ := hfed'.of_finish hfinish
      refine ⟨out, ⟨by dsimp only at hsize; omega, nonce, _, c, ?_, ?_, hframes, hfin.frame_eq,
        hheader, hfin.le⟩, hw''.trans hw'⟩
      · have := congrArg List.length (parseHeader_eq_ok.mp hnonce)
        rw [serializeHeader_length, List.length_take, min_eq_left hle] at this
        simp only [envelopeHeaderBytes, streamNoncePrefixBytes] at this ⊢
        omega
      · rw [← parseHeader_eq_ok.mp hnonce, List.take_append_drop]
    · rintro ⟨p, hgram⟩
      obtain ⟨c', -, hframes', hfits⟩ := hparts hgram
      obtain rfl := frames_unique hframes hframes'
      rw [hfed'.finish_of_fits trivial hfits] at hfinish
      cases hfinish

end memory

/-! ## Every honest source -/

section honest

variable {R : RawDecoder δ} {frame : Bytes → Option Bytes} {source : BackupByteSource σ}
  {sink : BackupByteSink σ} {Rest : σ → Bytes → Prop}

/-- **The reader on an honest source** succeeds iff the bytes are in the grammar, and then it has
delivered the content. -/
theorem openObjectV1_spec (A : StreamAead) (context : BackupObjectContextV1)
    (hsound : R.Sound frame windowLogMax) (hdelim : SelfDelimiting frame)
    (hlive : R.Live frame windowLogMax) (h : Honest source sink Rest) (hsink : NeverFails sink)
    {w : World σ} {b : Bytes} (hR : Rest w.foreign b) :
    wp (openObjectV1 A R source sink context) w
      (fun _ w' => ∃ p, V1Grammar A frame context b p ∧ w'.bytes = w.bytes ++ p)
      fun _ _ => ¬ ∃ p, V1Grammar A frame context b p := by
  have hagree := sim_openObjectV1 h (memory_honest one_pos) A R context hsink memorySink_neverFails w
    { foreign := b, delivered := w.delivered } ⟨⟨b, hR, rfl⟩, rfl⟩
  have hmem := openObjectV1_memory A context hsound hdelim hlive
    { foreign := b, delivered := w.delivered }
  refine wp_of_agree hagree hmem (fun _ s t hst ht => ?_) fun _ _ _ _ h => h
  obtain ⟨p, hgram, hbytes⟩ := ht
  refine ⟨p, hgram, ?_⟩
  rw [World.bytes, hst.2]
  exact hbytes

/-- **The reader accepts exactly the V1 grammar, whatever the chunking.** -/
theorem openObjectV1_iff_grammar (A : StreamAead) (R : RawDecoder δ)
    (frame : Bytes → Option Bytes) (hsound : R.Sound frame windowLogMax)
    (hdelim : SelfDelimiting frame) (hlive : R.Live frame windowLogMax)
    (context : BackupObjectContextV1) {source : BackupByteSource σ} {sink : BackupByteSink σ}
    {Rest : σ → Bytes → Prop} {source' : BackupByteSource τ} {sink' : BackupByteSink τ}
    {Rest' : τ → Bytes → Prop} (h : Honest source sink Rest) (h' : Honest source' sink' Rest')
    (hsink : NeverFails sink) (hsink' : NeverFails sink') {b : Bytes} {s : σ} {s' : τ}
    (hR : Rest s b) (hR' : Rest' s' b) :
    let r := (openObjectV1 A R source sink context).run { foreign := s, delivered := [] }
    let r' := (openObjectV1 A R source' sink' context).run { foreign := s', delivered := [] }
    (outcome r = .ok () ↔ ∃ p, V1Grammar A frame context b p) ∧
      outcome r = outcome r' ∧ (final r).delivered = (final r').delivered := by
  intro r r'
  have hagree : Agree (Alike Rest Rest') SameDelivered r r' :=
    sim_openObjectV1 h h' A R context hsink hsink' _ _ ⟨⟨b, hR, hR'⟩, rfl⟩
  refine ⟨?_, hagree.outcome_eq, hagree.final_rel fun _ _ => Alike.sameDelivered⟩
  refine outcome_eq_ok_iff (wp_mono (openObjectV1_spec A context hsound hdelim hlive h hsink hR)
    (fun _ _ hp => ?_) fun _ _ h => h)
  obtain ⟨p, hgram, -⟩ := hp
  exact ⟨p, hgram⟩

end honest

/-- An object with one block, served byte by byte and by the chunk. -/
theorem openObjectV1_iff_grammar_stored :
    let A := taggedAead fun _ _ _ _ => true
    let b := serializeHeader (List.replicate 19 0) ++
      frameOf (stored [7, 8, 9] ++ List.replicate 16 0)
    let r := (openObjectV1 A storedDecoder (memorySource 1) memorySink default).run
      { foreign := b, delivered := [] }
    let r' := (openObjectV1 A storedDecoder (memorySource 65536) memorySink default).run
      { foreign := b, delivered := [] }
    (outcome r = .ok () ↔ ∃ p, V1Grammar A storedFrame default b p) ∧
      outcome r = outcome r' ∧ (final r).delivered = (final r').delivered :=
  openObjectV1_iff_grammar _ storedDecoder storedFrame (storedDecoder_sound _)
    storedFrame_selfDelimiting (storedDecoder_live _) default (memory_honest one_pos)
    (memory_honest (by norm_num)) memorySink_neverFails memorySink_neverFails rfl rfl

end KChat.Backup
