import KChat.Backup.Decompress
import KChat.Backup.Reader
import KChat.Backup.Sealing
import KChat.Lib.StoredZstd

/-!
# Nothing but one sealed object is delivered

* `SealedObject`, `SealedBlock`: the objects sealed under a context, and the blocks that sealing
  them encrypts.
* `Consumed`: what the reader has decrypted so far is a beginning of one object.
* `authenticateLoop_authentic`: the frame loop, whatever source and sink do; the induction is on the
  rounds, and `Consumed` carries it.
* **`openObjectV1_authentic`**: what is delivered begins the plaintext of one object, and is all of
  it if the reader succeeds.
-/

namespace KChat.Backup

open Lib BoundedDecoder

variable {σ δ κ : Type}

/-! ## Sealed objects -/

/-- **An object sealed under a context** (every successful `sealObjectV1` gives one,
`sealObjectV1_sealed`). -/
structure SealedObject (A : StreamAead) (C : Compressor κ) (context : BackupObjectContextV1) where
  noncePrefix : NoncePrefix
  compressed : Bytes
  plaintext : Bytes
  bytes : Bytes
  sealedWith : SealedWith A C context noncePrefix compressed plaintext bytes

/-- Sealing the compressed stream `c` encrypts `msg` with counter `i` and flag `last`. -/
def SealedBlock (c : Bytes) (i : ℕ) (last : Bool) (msg : Bytes) : Prop :=
  if last then i = c.length / compressedBlockBytes ∧ msg = blockRest compressedBlockBytes c
  else i < c.length / compressedBlockBytes ∧ msg = block compressedBlockBytes c i

variable {A : StreamAead} {C : Compressor κ} {R : RawDecoder δ} {frame : Bytes → Option Bytes}
  {context : BackupObjectContextV1} {objects : Set (SealedObject A C context)}

/-- The nonce prefix of an object is not used for another one. -/
def FreshNonces (objects : Set (SealedObject A C context)) : Prop :=
  ∀ o ∈ objects, ∀ o' ∈ objects, o.noncePrefix = o'.noncePrefix → o = o'

/-- **An ideal AEAD**: under the context's key and associated data only the blocks of the sealed
objects decrypt, each at its own nonce prefix, counter and flag. -/
def IdealAead (objects : Set (SealedObject A C context)) : Prop :=
  A.Authentic context.objectKey context.canonicalBytes fun nonce i last msg =>
    ∃ o ∈ objects, o.noncePrefix.val = nonce ∧ SealedBlock o.compressed i last msg

theorem SealedObject.frame_eq (hC : C.Encodes frame BackupObjectWriterV1.level windowLogMax)
    (o : SealedObject A C context) : frame o.compressed = some o.plaintext := by
  obtain ⟨k, pieces, hk, hstream, hflat⟩ := o.sealedWith.compressed
  rw [hC.content hk hstream, hflat]

/-! ## What the reader does not deliver -/

section silent

variable (source : BackupByteSource σ)

/-- A call that delivers nothing. -/
def Silent {α : Type} (x : Call σ α) : Prop :=
  ∀ w, wp x w (fun _ w' => w'.bytes = w.bytes) fun _ w' => w'.bytes = w.bytes

theorem Silent.bind {α β : Type} {x : Call σ α} {f : α → Call σ β} (h : Silent x)
    (hf : ∀ a, Silent (f a)) : Silent (x >>= f) := by
  intro w
  rw [wp_bind]
  refine wp_mono (h w) (fun a w' hw' => ?_) fun _ _ h => h
  exact wp_mono (hf a w') (fun _ _ h => h.trans hw') fun _ _ h => h.trans hw'

theorem Silent.ite {α : Type} {p : Prop} [Decidable p] {x y : Call σ α} (hx : Silent x)
    (hy : Silent y) : Silent (if p then x else y) := fun w =>
  wp_ite (fun _ => hx w) fun _ => hy w

theorem silent_pure {α : Type} (a : α) : Silent (pure a : Call σ α) := fun _ => rfl

theorem silent_throw {α : Type} (e : BackupErrorCode) : Silent (throw e : Call σ α) := fun _ => rfl

theorem silent_checkCancelled : Silent (checkCancelled source) :=
  Silent.bind (fun _ => rfl) fun _ => Silent.ite (silent_throw _) (silent_pure _)

theorem silent_read (input : CheckedSource) (n : ℕ) : Silent (input.read source n) := by
  refine (silent_checkCancelled source).bind fun _ => Silent.ite (silent_pure _) ?_
  refine Silent.bind (fun w => ?_) fun data => (silent_checkCancelled source).bind fun _ => ?_
  · rw [BackupByteSource.read, onForeign, wp_zoom]
    unfold wp
    split <;> rfl
  · exact Silent.ite (silent_throw _) (Silent.ite (silent_throw _) (silent_pure _))

theorem silent_readExact (input : CheckedSource) (n : ℕ) : Silent (input.readExact source n) := by
  induction n using Nat.strong_induction_on generalizing input with
  | _ n ih =>
    rw [CheckedSource.readExact]
    split
    · exact silent_pure _
    refine (silent_read source input n).bind fun r => ?_
    split
    · exact silent_throw _
    rename_i hne
    have := List.length_pos_iff.mpr hne
    exact (ih _ (by omega) _).bind fun r' => silent_pure _

theorem silent_nextLength (input : CheckedSource) : Silent (input.nextLength source) := by
  refine (silent_read source input 1).bind fun first => Silent.ite (silent_pure _) ?_
  exact (silent_readExact source _ 3).bind fun rest =>
    Silent.ite (silent_throw _) (silent_pure _)

theorem silent_orThrow {α : Type} (o : Option α) (e : BackupErrorCode) :
    Silent (orThrow o e : Call σ α) := fun _ => wp_orThrow (fun _ _ => rfl) fun _ => rfl

theorem silent_ofResult {α : Type} (r : Except BackupErrorCode α) :
    Silent (ofResult r : Call σ α) := fun _ => wp_ofResult (fun _ _ => rfl) fun _ _ => rfl

end silent

/-! ## The frame loop -/

/-- **After `i` NEXT blocks** under `nonce` the reader has decrypted `fed`, a beginning of one
object. -/
def Consumed (objects : Set (SealedObject A C context)) (nonce : Bytes) (i : ℕ) (fed : Bytes) : Prop :=
  (i = 0 ∧ fed = []) ∨ ∃ o ∈ objects, o.noncePrefix.val = nonce ∧
    i ≤ o.compressed.length / compressedBlockBytes ∧
    fed = o.compressed.take (compressedBlockBytes * i)

/-- What the sink was given begins the plaintext of one object. -/
def Delivered (objects : Set (SealedObject A C context)) (w : World σ) : Prop :=
  w.bytes = [] ∨ ∃ o ∈ objects, w.bytes <+: o.plaintext

section loop

variable {nonce fed : Bytes} {i : ℕ}

/-- The object a block belongs to is the one that was begun. -/
theorem Consumed.eq_take (hfresh : FreshNonces objects) (h : Consumed objects nonce i fed)
    {o : SealedObject A C context} (ho : o ∈ objects) (hn : o.noncePrefix.val = nonce) :
    fed = o.compressed.take (compressedBlockBytes * i) := by
  rcases h with ⟨rfl, rfl⟩ | ⟨o', ho', hn', -, hfed⟩
  · simp
  · obtain rfl : o' = o := hfresh o' ho' o ho (Subtype.ext (hn'.trans hn.symm))
    exact hfed

theorem Consumed.next (hfresh : FreshNonces objects) (hideal : IdealAead objects)
    (h : Consumed objects nonce i fed) {ct msg : Bytes}
    (hdec : A.decrypt context.objectKey nonce i false context.canonicalBytes ct = some msg) :
    Consumed objects nonce (i + 1) (fed ++ msg) := by
  obtain ⟨o, ho, hn, hlt, rfl⟩ := hideal _ _ _ _ _ hdec
  refine .inr ⟨o, ho, hn, hlt, ?_⟩
  rw [h.eq_take hfresh ho hn, mul_add, mul_one, List.take_add, block]

theorem Consumed.last (hfresh : FreshNonces objects) (hideal : IdealAead objects)
    (h : Consumed objects nonce i fed) {ct msg : Bytes}
    (hdec : A.decrypt context.objectKey nonce i true context.canonicalBytes ct = some msg) :
    ∃ o ∈ objects, fed ++ msg = o.compressed := by
  obtain ⟨o, ho, hn, rfl, rfl⟩ := hideal _ _ _ _ _ hdec
  refine ⟨o, ho, ?_⟩
  rw [h.eq_take hfresh ho hn, blockRest, List.take_append_drop]

variable (hsound : R.Sound frame windowLogMax)
  (hC : C.Encodes frame BackupObjectWriterV1.level windowLogMax)

include hsound hC

/-- What was emitted so far is no secret: it begins the plaintext of the object begun. -/
theorem delivered_of_fed {d : BoundedDecoder δ} {idle : ℕ} {w : World σ}
    (h : Consumed objects nonce i fed) (hfed : Fed R frame False d fed w.bytes idle) :
    Delivered objects w := by
  rcases h with ⟨-, rfl⟩ | ⟨o, ho, -, -, rfl⟩
  · left
    cases hfed with
    | header _ _ _ hout => exact hout
    | body _ hheader => obtain ⟨fh, hfh, -⟩ := hheader; cases hfh
    | done _ hheader => obtain ⟨fh, hfh, -⟩ := hheader; cases hfh
  · exact .inr ⟨o, ho, hfed.isPrefix hsound (o.frame_eq hC) (List.take_prefix _ _)⟩

omit hsound in
theorem delivered_of_refused {w : World σ} {o : SealedObject A C context} (ho : o ∈ objects)
    (hp : fed <+: o.compressed) (h : Refused frame False [] fed w) : Delivered objects w := by
  obtain ⟨out, hw, hpre, -⟩ := h
  refine .inr ⟨o, ho, ?_⟩
  rw [hw, List.nil_append]
  exact hpre _ _ (o.frame_eq hC) hp

omit hsound hC in
theorem Silent.delivered {α : Type} {x : Call σ α} (hx : Silent x) {w : World σ}
    {Q : α → World σ → Prop} (h : Delivered objects w)
    (hQ : ∀ a w', w'.bytes = w.bytes → Q a w') : wp x w Q fun _ => Delivered objects := by
  refine wp_mono (hx w) hQ fun _ w' hw' => ?_
  rw [Delivered, hw']
  exact h

variable (source : BackupByteSource σ) (sink : BackupByteSink σ)

omit hsound hC in
theorem emits_write : Emits False sink.write := by
  intro chunk w
  rw [BackupByteSink.write, wp_bind, wp_modify, onForeign, wp_zoom]
  unfold wp
  split <;> simp [World.bytes]

omit hsound hC in
theorem checks_checkCancelled : Checks False (checkCancelled source) := fun w =>
  wp_mono (silent_checkCancelled source w) (fun _ _ h => h) fun _ _ h => ⟨h, id⟩

theorem push_authentic {d : BoundedDecoder δ} {msg : Bytes} {w : World σ}
    {o : SealedObject A C context} (ho : o ∈ objects) (hp : fed ++ msg <+: o.compressed)
    (hfed : ∃ idle ≤ 2, Fed R frame False d fed w.bytes idle) :
    wp (push R sink.write (checkCancelled source) d msg) w
      (fun d' w' => ∃ idle ≤ if msg = [] then 3 else 2, Fed R frame False d' (fed ++ msg) w'.bytes idle)
      fun _ => Delivered objects := by
  refine wp_mono (push_fed hsound False.elim False.elim (emits_write sink)
    (checks_checkCancelled source) hfed (List.nil_append w.bytes).symm) (fun d' w' h => ?_) fun _ w' h =>
    delivered_of_refused hC ho hp h
  obtain ⟨out, hout, hidle⟩ := h
  rw [List.nil_append] at hout
  rwa [hout]

/-- **The frame loop**, whatever source and sink do: it delivers a beginning of one object, and all
of its compressed stream has been pushed if it succeeds. -/
theorem authenticateLoop_authentic (hfresh : FreshNonces objects) (hideal : IdealAead objects)
    (rounds : ℕ) (input : CheckedSource) (decoder : BoundedDecoder δ) (length : ℕ) (w : World σ)
    (h : Consumed objects nonce i fed) (hfed : ∃ idle ≤ 2, Fed R frame False decoder fed w.bytes idle) :
    wp (authenticateLoop A R source sink context rounds input
        { key := context.objectKey, nonce := nonce, position := i } decoder length) w
      (fun d' w' => ∃ o ∈ objects, ∃ idle, Fed R frame False d' o.compressed w'.bytes idle)
      fun _ => Delivered objects := by
  have hdel : ∀ {i fed decoder} {w : World σ}, Consumed objects nonce i fed →
      (∃ idle ≤ 2, Fed R frame False decoder fed w.bytes idle) → Delivered objects w := by
    rintro i fed decoder w h ⟨idle, -, hfed⟩
    exact delivered_of_fed hsound hC h hfed
  induction rounds generalizing i fed input decoder length w with
  | zero => exact hdel h hfed
  | succ rounds ih =>
    rw [authenticateLoop, wp_bind]
    refine wp_mono (wp_and (silent_readExact source input length w)
      (readExact_counted source input length w)) (fun r w₁ h₁ => ?_) fun _ w₁ h₁ => ?_
    swap
    · rw [Delivered, h₁.1]
      exact hdel h hfed
    obtain ⟨hw₁, hlen, -⟩ := h₁
    rw [← hw₁] at hfed
    rw [wp_bind]
    refine (silent_nextLength source r.2).delivered (hdel h hfed) fun next w₂ hw₂ => ?_
    rw [← hw₂] at hfed
    refine wp_ite (fun _ => hdel h hfed) fun hshape => ?_
    split
    · rename_i nextLength hnext
      rw [wp_bind]
      refine wp_orThrow (fun dec hdec => ?_) fun _ => hdel h hfed
      obtain ⟨hdec', hnew⟩ := StreamDecryptor.decryptNext_eq_some hdec
      have hconsumed := h.next hfresh hideal hdec'
      rw [wp_bind]
      refine (silent_checkCancelled source).delivered (hdel h hfed) fun _ w₃ hw₃ => ?_
      rw [← hw₃] at hfed
      have hmsg : dec.1 ≠ [] := by
        have := A.decrypt_length hdec'
        have hfull : length = compressedBlockBytes + aeadTagBytes := by
          by_contra hne
          exact hshape ⟨by rw [hnext]; rfl, hne⟩
        rw [hlen, hfull] at this
        intro hnil
        rw [hnil] at this
        simp [compressedBlockBytes, aeadTagBytes, tagBytes] at this
      obtain ⟨o, ho, -, -, hp⟩ := hconsumed.resolve_left (by simp)
      rw [wp_bind]
      refine wp_mono (push_authentic hsound hC source sink ho (hp ▸ List.take_prefix _ _) hfed)
        (fun d' w' hd' => ?_) fun _ _ h => h
      rw [if_neg hmsg] at hd'
      rw [hnew]
      exact ih _ d' _ w' hconsumed hd'
    · rename_i hnext
      rw [wp_bind]
      refine wp_orThrow (fun msg hdec => ?_) fun _ => hdel h hfed
      obtain ⟨o, ho, heq⟩ := h.last hfresh hideal hdec
      rw [wp_bind]
      refine (silent_checkCancelled source).delivered (hdel h hfed) fun _ w₃ hw₃ => ?_
      rw [← hw₃] at hfed
      refine wp_mono (push_authentic hsound hC source sink ho (heq ▸ List.prefix_refl _) hfed)
        (fun d' w' hd' => ?_) fun _ _ h => h
      obtain ⟨idle, -, hfed'⟩ := hd'
      rw [heq] at hfed'
      exact ⟨o, ho, idle, hfed'⟩

end loop

/-! ## The reader -/

/-- The reader as a whole, from a sink that was given nothing. -/
theorem openObjectV1_delivered (hC : C.Encodes frame BackupObjectWriterV1.level windowLogMax)
    (hsound : R.Sound frame windowLogMax) (hfresh : FreshNonces objects)
    (hideal : IdealAead objects) (source : BackupByteSource σ) (sink : BackupByteSink σ)
    (w : World σ) (hw : w.bytes = []) : wp (openObjectV1 A R source sink context) w
      (fun _ w' => ∃ o ∈ objects, w'.bytes = o.plaintext) fun _ => Delivered objects := by
  have hnone : ∀ {v : World σ}, v.bytes = [] → Delivered objects v := .inl
  have hstep : ∀ {α : Type} {x : Call σ α} {v : World σ} {Q : α → World σ → Prop}, Silent x →
      v.bytes = [] → (∀ a v', v'.bytes = [] → Q a v') → wp x v Q fun _ => Delivered objects :=
    fun hx hv hQ => hx.delivered (hnone hv) fun a v' hv' => hQ a v' (hv'.trans hv)
  rw [openObjectV1, wp_bind]
  refine hstep ((silent_checkCancelled source).bind fun _ => silent_pure _) hw fun input w₁ hw₁ => ?_
  rw [wp_bind]
  refine wp_mono (new_fed frame False w₁) (fun decoder w₂ h₂ => ?_) fun _ w₂ h₂ => ?_
  swap
  · rw [h₂]
    exact hnone hw₁
  obtain ⟨rfl, hfed⟩ := h₂
  rw [wp_bind, authenticateEnvelope, wp_bind]
  refine hstep (silent_readExact source input _) hw₁ fun header w₃ hw₃ => ?_
  rw [wp_bind]
  refine hstep (silent_ofResult _) hw₃ fun nonce w₄ hw₄ => ?_
  rw [wp_bind]
  refine hstep (silent_nextLength source _) hw₄ fun first w₅ hw₅ => ?_
  rw [wp_bind]
  refine hstep (silent_orThrow _ _) hw₅ fun length w₆ hw₆ => ?_
  refine wp_mono (authenticateLoop_authentic hsound hC source sink hfresh hideal _ _ decoder _ w₆
    (.inl ⟨rfl, rfl⟩) ⟨0, Nat.zero_le _, by rwa [hw₆]⟩) (fun d w₇ h₇ => ?_) fun _ _ h => h
  obtain ⟨o, ho, idle, hfed'⟩ := h₇
  have hdel : Delivered objects w₇ :=
    .inr ⟨o, ho, hfed'.isPrefix hsound (o.frame_eq hC) (List.prefix_refl _)⟩
  rw [wp_bind]
  refine (silent_checkCancelled source).delivered hdel fun _ w₈ hw₈ => ?_
  refine wp_ofResult (fun _ hfinish => ⟨o, ho, ?_⟩) fun _ _ => by rwa [Delivered, hw₈]
  obtain ⟨-, hfin⟩ := hfed'.of_finish hfinish
  rw [hw₈]
  exact Option.some.inj (hfin.frame_eq.symm.trans (o.frame_eq hC))

/-- **Nothing but one sealed object is delivered**, whatever the source serves and wherever source
and sink fail or cancel; and the reader succeeds only when it has delivered all of it. -/
theorem openObjectV1_authentic (A : StreamAead) (C : Compressor κ) (R : RawDecoder δ)
    (frame : Bytes → Option Bytes) (hC : C.Encodes frame BackupObjectWriterV1.level windowLogMax)
    (hsound : R.Sound frame windowLogMax) (context : BackupObjectContextV1)
    (objects : Set (SealedObject A C context)) (hfresh : FreshNonces objects)
    (hideal : IdealAead objects) (source : BackupByteSource σ) (sink : BackupByteSink σ) (s : σ) :
    let r := (openObjectV1 A R source sink context).run { foreign := s, delivered := [] }
    ((final r).bytes = [] ∨ ∃ o ∈ objects, (final r).bytes <+: o.plaintext) ∧
      (outcome r = .ok () → ∃ o ∈ objects, (final r).bytes = o.plaintext) := by
  intro r
  have hspec := openObjectV1_delivered hC hsound hfresh hideal source sink
    { foreign := s, delivered := [] } rfl
  cases hr : r with
  | ok u w =>
    obtain ⟨o, ho, hw⟩ := (wp_of_ok hr).mp hspec
    exact ⟨.inr ⟨o, ho, hw ▸ List.prefix_refl _⟩, fun _ => ⟨o, ho, hw⟩⟩
  | error e w => exact ⟨(wp_of_error hr).mp hspec, fun h => by cases h⟩

/-! ### One sealed object -/

/-- The AEAD that has encrypted one block: the frame that stores three bytes. -/
def oneBlockAead : StreamAead :=
  taggedAead fun nonce i last msg =>
    nonce == List.replicate 19 0 && i == 0 && last && msg == stored [7, 8, 9]

def oneBlockObject : SealedObject oneBlockAead storedCompressor default where
  noncePrefix := default
  compressed := stored [7, 8, 9]
  plaintext := [7, 8, 9]
  bytes := serializeHeader (List.replicate 19 0) ++
    frameOf (stored [7, 8, 9] ++ List.replicate 16 0)
  sealedWith :=
    { compressed := ⟨[], [[7, 8, 9]], rfl, rfl, rfl⟩
      envelope := by decide +kernel
      plaintext_le := by decide +kernel
      size_le := by decide +kernel }

theorem oneBlockObject_ideal : IdealAead {oneBlockObject} := by
  intro nonce i last ct msg h
  have hknown := taggedAead_authentic _ _ _ nonce i last ct msg h
  simp only [Bool.and_eq_true, beq_iff_eq] at hknown
  obtain ⟨⟨⟨rfl, rfl⟩, rfl⟩, rfl⟩ := hknown
  refine ⟨oneBlockObject, rfl, rfl, ?_⟩
  rw [SealedBlock, if_pos rfl]
  exact ⟨by decide +kernel, by decide +kernel⟩

/-- The object is served without its last byte. -/
theorem openObjectV1_authentic_truncated :
    let r := (openObjectV1 oneBlockAead storedDecoder (memorySource 1) memorySink default).run
      { foreign := oneBlockObject.bytes.dropLast, delivered := [] }
    ((final r).bytes = [] ∨ ∃ o ∈ ({oneBlockObject} : Set _), (final r).bytes <+: o.plaintext) ∧
      (outcome r = .ok () → ∃ o ∈ ({oneBlockObject} : Set _), (final r).bytes = o.plaintext) :=
  openObjectV1_authentic oneBlockAead storedCompressor storedDecoder storedFrame
    (storedCompressor_encodes _ (by decide +kernel)) (storedDecoder_sound _) default
    {oneBlockObject} (by rintro o rfl o' rfl _; rfl) oneBlockObject_ideal (memorySource 1)
    memorySink _

end KChat.Backup
