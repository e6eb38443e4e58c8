import KChat.Backup.Decompress
import KChat.Backup.Reader

/-!
# Opening does not depend on how the source cuts its bytes

Two honest callers of one byte string are in step through every part of the reader.

* `sim_decodeLoop`, `sim_push`: the decoder; `InStep`: callers that are in step;
  **`InStep.openObjectV1`**: so is opening an object. `inStep_of_reads`, `honest_inStep`.
* **`sim_openObjectV1`**: the result and the chunks the sinks get are the same.
-/

namespace KChat.Backup

open Lib BoundedDecoder

variable {σ τ δ : Type}

/-! ## The decoder -/

section decoder

variable {Rel RelE : World σ → World τ → Prop} (R : RawDecoder δ) {emit : Bytes → Call σ Unit}
  {emit' : Bytes → Call τ Unit} {cancelled : Call σ Unit} {cancelled' : Call τ Unit}
  (hE : ∀ w w', Rel w w' → RelE w w') (hemit : ∀ chunk, Sim Rel RelE (emit chunk) (emit' chunk))
  (hcancel : Sim Rel RelE cancelled cancelled')

include hE hemit hcancel

theorem sim_decodeLoop (d : BoundedDecoder δ) (bytes : Bytes) :
    Sim Rel RelE (decodeLoop R emit cancelled d bytes) (decodeLoop R emit' cancelled' d bytes) := by
  induction d, bytes using decodeLoop.induct R with
  | case1 d bytes ih =>
    rw [decodeLoop, decodeLoop]
    refine hcancel.bind fun _ => ?_
    dsimp only
    split
    · exact Sim.throw hE _
    rename_i status hrun
    split
    swap
    · exact Sim.throw hE _
    rename_i htotal
    refine hcancel.bind fun _ => ?_
    refine Sim.optional (hemit _) fun _ => hcancel.bind fun _ => ?_
    refine Sim.ite (fun _ => ?_) fun _ => ?_
    · exact Sim.ite (fun _ => Sim.pure _) fun _ => Sim.throw hE _
    refine Sim.ite (fun _ => ?_) fun hidle => ih status hrun htotal hidle
    exact Sim.ite (fun _ => Sim.pure _) fun _ => Sim.throw hE _

theorem sim_decode (d : BoundedDecoder δ) (bytes : Bytes) :
    Sim Rel RelE (decode R emit cancelled d bytes) (decode R emit' cancelled' d bytes) := by
  refine Sim.ite (fun _ => ?_) fun _ => sim_decodeLoop R hE hemit hcancel d bytes
  exact Sim.ite (fun _ => Sim.pure _) fun _ => Sim.throw hE _

theorem sim_pushHeader (d : BoundedDecoder δ) (bytes : Bytes) :
    Sim Rel RelE (pushHeader R emit cancelled d bytes)
      (pushHeader R emit' cancelled' d bytes) := by
  induction bytes generalizing d with
  | nil => exact Sim.pure _
  | cons b bytes ih =>
    refine Sim.ite (fun _ => Sim.pure _) fun _ => (Sim.ofResult hE _).bind fun complete => ?_
    refine Sim.ite (fun _ => ?_) fun _ => ih _
    exact (sim_decode R hE hemit hcancel _ _).bind fun d' => ih d'

theorem sim_push (d : BoundedDecoder δ) (bytes : Bytes) :
    Sim Rel RelE (push R emit cancelled d bytes) (push R emit' cancelled' d bytes) := by
  refine (sim_pushHeader R hE hemit hcancel d bytes).bind fun r => ?_
  exact Sim.ite (fun _ => sim_decode R hE hemit hcancel _ _) fun _ => Sim.pure _

end decoder

/-! ## Callers in step -/

/-- **Two callers whose calls are in step**: they keep the states related. -/
structure InStep (Rel RelE : World σ → World τ → Prop) (source : BackupByteSource σ)
    (sink : BackupByteSink σ) (source' : BackupByteSource τ) (sink' : BackupByteSink τ) : Prop where
  weaken : ∀ w w', Rel w w' → RelE w w'
  cancelled : Sim Rel RelE source.cancelled source'.cancelled
  readExact : ∀ (input : CheckedSource) n,
    Sim Rel RelE (input.readExact source n) (input.readExact source' n)
  nextLength : ∀ input : CheckedSource,
    Sim Rel RelE (input.nextLength source) (input.nextLength source')
  write : ∀ chunk, Sim Rel RelE (sink.write chunk) (sink'.write chunk)

section steps

variable {Rel RelE : World σ → World τ → Prop} {source : BackupByteSource σ}
  {sink : BackupByteSink σ} {source' : BackupByteSource τ} {sink' : BackupByteSink τ}

theorem sim_checkCancelled (hE : ∀ w w', Rel w w' → RelE w w')
    (hcancel : Sim Rel RelE source.cancelled source'.cancelled) :
    Sim Rel RelE (checkCancelled source) (checkCancelled source') :=
  hcancel.bind fun _ => Sim.ite (fun _ => Sim.throw hE _) fun _ => Sim.pure _

section reads

variable (hE : ∀ w w', Rel w w' → RelE w w')
  (hcancel : Sim Rel RelE source.cancelled source'.cancelled)
  (hread : ∀ capacity, Sim Rel RelE (source.read capacity) (source'.read capacity))

include hE hcancel hread

theorem sim_read (input : CheckedSource) (n : ℕ) :
    Sim Rel RelE (input.read source n) (input.read source' n) := by
  have hcheck := sim_checkCancelled hE hcancel
  unfold CheckedSource.read
  apply hcheck.bind
  intro _
  apply Sim.ite (fun _ => Sim.pure _)
  intro _
  apply (hread _).bind
  intro data
  apply hcheck.bind
  intro _
  apply Sim.ite (fun _ => Sim.throw hE _)
  intro _
  exact Sim.ite (fun _ => Sim.throw hE _) fun _ => Sim.pure _

theorem sim_readExact (input : CheckedSource) (n : ℕ) :
    Sim Rel RelE (input.readExact source n) (input.readExact source' n) := by
  induction n using Nat.strong_induction_on generalizing input with
  | _ n ih =>
    rw [CheckedSource.readExact, CheckedSource.readExact]
    by_cases hn : n = 0
    · rw [dif_pos hn, dif_pos hn]
      exact Sim.pure _
    rw [dif_neg hn, dif_neg hn]
    apply (sim_read hE hcancel hread _ _).bind
    intro r
    by_cases hr : r.1 = []
    · rw [dif_pos hr, dif_pos hr]
      exact Sim.throw hE _
    rw [dif_neg hr, dif_neg hr]
    have := List.length_pos_iff.mpr hr
    apply (ih _ (by omega) _).bind
    intro r'
    exact Sim.pure _

theorem sim_nextLength (input : CheckedSource) :
    Sim Rel RelE (input.nextLength source) (input.nextLength source') := by
  unfold CheckedSource.nextLength
  apply (sim_read hE hcancel hread _ _).bind
  intro first
  apply Sim.ite (fun _ => Sim.pure _)
  intro _
  apply (sim_readExact hE hcancel hread _ _).bind
  intro rest
  exact Sim.ite (fun _ => Sim.throw hE _) fun _ => Sim.pure _

/-- Callers are in step if their reads are. -/
theorem inStep_of_reads (hwrite : ∀ chunk, Sim Rel RelE (sink.write chunk) (sink'.write chunk)) :
    InStep Rel RelE source sink source' sink' where
  weaken := hE
  cancelled := hcancel
  readExact := sim_readExact hE hcancel hread
  nextLength := sim_nextLength hE hcancel hread
  write := hwrite

end reads

namespace InStep

variable (h : InStep Rel RelE source sink source' sink')

include h

theorem checkCancelled : Sim Rel RelE (Backup.checkCancelled source) (Backup.checkCancelled source') :=
  sim_checkCancelled h.weaken h.cancelled

theorem push (R : RawDecoder δ) (d : BoundedDecoder δ) (bytes : Bytes) :
    Sim Rel RelE (d.push R sink.write (Backup.checkCancelled source) bytes)
      (d.push R sink'.write (Backup.checkCancelled source') bytes) :=
  sim_push R h.weaken h.write h.checkCancelled d bytes

variable (A : StreamAead) (R : RawDecoder δ) (context : BackupObjectContextV1)

theorem authenticateLoop (rounds : ℕ) (input : CheckedSource) (decryptor : StreamDecryptor)
    (decoder : BoundedDecoder δ) (length : ℕ) : Sim Rel RelE
      (Backup.authenticateLoop A R source sink context rounds input decryptor decoder length)
      (Backup.authenticateLoop A R source' sink' context rounds input decryptor decoder length) := by
  have hE := h.weaken
  induction rounds generalizing input decryptor decoder length with
  | zero => exact Sim.throw hE _
  | succ rounds ih =>
    refine (h.readExact input length).bind fun frame => ?_
    refine (h.nextLength frame.2).bind fun next => ?_
    refine Sim.ite (fun _ => Sim.throw hE _) fun _ => ?_
    cases next.1 with
    | some nextLength =>
      refine (Sim.orThrow hE _ _).bind fun decrypted => ?_
      refine h.checkCancelled.bind fun _ => ?_
      exact (h.push R _ _).bind fun d => ih _ _ d _
    | none =>
      refine (Sim.orThrow hE _ _).bind fun decrypted => ?_
      exact h.checkCancelled.bind fun _ => h.push R _ _

/-- **Callers in step** see the same result. -/
theorem openObjectV1 : Sim Rel RelE (Backup.openObjectV1 A R source sink context)
    (Backup.openObjectV1 A R source' sink' context) := by
  have hE := h.weaken
  refine Sim.bind (h.checkCancelled.bind fun _ => Sim.pure _) fun input => ?_
  refine Sim.bind ?_ fun decoder => ?_
  · exact (Sim.orThrow hE _ _).bind fun _ => (Sim.orThrow hE _ _).bind fun _ => Sim.pure _
  refine Sim.bind ?_ fun decoder => h.checkCancelled.bind fun _ => Sim.ofResult hE _
  refine (h.readExact _ _).bind fun header => ?_
  refine (Sim.ofResult hE _).bind fun noncePrefix => ?_
  refine (h.nextLength _).bind fun first => ?_
  refine (Sim.orThrow hE _ _).bind fun length => ?_
  exact h.authenticateLoop A R context _ _ _ _ _

end InStep

end steps

/-! ## Honest callers -/

section honest

variable {source : BackupByteSource σ} {sink : BackupByteSink σ} {Rest : σ → Bytes → Prop}
  {source' : BackupByteSource τ} {sink' : BackupByteSink τ} {Rest' : τ → Bytes → Prop}

/-- The reads of honest callers of one byte string are not in step one by one, but what the reader
makes of them is. -/
theorem honest_inStep (h : Honest source sink Rest) (h' : Honest source' sink' Rest')
    (hsink : NeverFails sink) (hsink' : NeverFails sink') :
    InStep (Alike Rest Rest') SameDelivered source sink source' sink' where
  weaken _ _ := Alike.sameDelivered
  cancelled := sim_cancelled h h'
  readExact input n := by
    rintro w w' ⟨⟨rest, hR, hR'⟩, hd⟩
    refine agree_of_wp (CheckedSource.readExact_spec h hR input n)
      (CheckedSource.readExact_spec h' hR' input n) (fun _ v v' hv hv' => ?_) fun v v' hv hv' => ?_
    · exact ⟨⟨_, hv.2, hv'.2⟩, by rw [hv.1, hv'.1, hd]⟩
    · rw [SameDelivered, hv, hv', hd]
  nextLength input := by
    rintro w w' ⟨⟨rest, hR, hR'⟩, hd⟩
    refine agree_of_wp (CheckedSource.nextLength_spec h hR input)
      (CheckedSource.nextLength_spec h' hR' input) (fun _ v v' hv hv' => ?_) fun v v' hv hv' => ?_
    · exact ⟨⟨_, hv.2, hv'.2⟩, by rw [hv.1, hv'.1, hd]⟩
    · rw [SameDelivered, hv, hv', hd]
  write := sim_write h h' hsink hsink'

/-- **Two honest callers of one byte string** see the same result, and their sinks the same
chunks. -/
theorem sim_openObjectV1 (h : Honest source sink Rest) (h' : Honest source' sink' Rest')
    (A : StreamAead) (R : RawDecoder δ) (context : BackupObjectContextV1) (hsink : NeverFails sink)
    (hsink' : NeverFails sink') : Sim (Alike Rest Rest') SameDelivered
      (openObjectV1 A R source sink context) (openObjectV1 A R source' sink' context) :=
  (honest_inStep h h' hsink hsink').openObjectV1 A R context

end honest

end KChat.Backup
