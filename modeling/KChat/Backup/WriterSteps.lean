import KChat.Backup.Writer

/-!
# Two callers of the writer in step

`Rel` relates the worlds of two callers, and no call of their sources and sinks destroys it.

* `Together`: the same object acts on related worlds. `sim_writeEncryptedBlock`, `sim_drain`,
  `write_together`: the envelope; `sim_writePlaintext`, `sim_finish`: the object writer.
* **`sim_sealObjectV1`**: sealing an object. **`sealObjectV1_keeps`**: a caller in step with itself.
-/

namespace KChat.Backup

open Lib

variable {σ τ κ ω : Type} {Rel : World σ → World τ → Prop}

/-! ## One object in two worlds -/

/-- **The same object acts on related worlds.** -/
def Together (Rel : World σ → World τ → Prop) (u : Owning ω (World σ)) (v : Owning ω (World τ)) :
    Prop :=
  u.self = v.self ∧ Rel u.world v.world

theorem sim_getSelf : Sim (Together Rel) (Together Rel) (getSelf : Method ω σ ω) getSelf := by
  rintro ⟨self, w⟩ ⟨_, v⟩ ⟨rfl, h⟩
  exact .ok ⟨rfl, h⟩

theorem sim_modifySelf (f : ω → ω) :
    Sim (Together Rel) (Together Rel) (modifySelf f : Method ω σ PUnit) (modifySelf f) := by
  rintro ⟨self, w⟩ ⟨_, v⟩ ⟨rfl, h⟩
  exact .ok ⟨rfl, h⟩

theorem sim_orThrow {α : Type} (o : Option α) (e : BackupErrorCode) :
    Sim (Together Rel) (Together Rel) (orThrow o e : Method ω σ α) (orThrow o e) :=
  Sim.orThrow (fun _ _ h => h) o e

theorem sim_throw {α : Type} (e : BackupErrorCode) :
    Sim (Together Rel) (Together Rel) (throw e : Method ω σ α) (throw e) :=
  Sim.throw (fun _ _ h => h) e

theorem sim_get_bind {α : Type} {f : Owning ω (World σ) → Method ω σ α}
    {g : Owning ω (World τ) → Method ω τ α}
    (h : ∀ u v, Together Rel u v → Sim (Together Rel) (Together Rel) (f u) (g v)) :
    Sim (Together Rel) (Together Rel) (get >>= f) (get >>= g) := fun u v huv => h u v huv u v huv

theorem sim_setWorld {w : World σ} {v : World τ} (h : Rel w v) : Sim (Together Rel) (Together Rel)
    (onWorld (set w) : Method ω σ PUnit) (onWorld (set v)) := by
  rintro ⟨self, _⟩ ⟨_, _⟩ ⟨rfl, -⟩
  exact .ok ⟨rfl, h⟩

/-- Another object in the same two worlds. -/
theorem together_of {ω' : Type} {u : Owning ω (World σ)} {v : Owning ω (World τ)} (self : ω')
    (h : Together Rel u v) : Together Rel ⟨self, u.world⟩ ⟨self, v.world⟩ := ⟨rfl, h.2⟩

/-- A method of the same object, called in two worlds. -/
theorem sim_withSelf {α : Type} {x : Method ω σ α} {y : Method ω τ α} (self : ω)
    (h : Sim (Together Rel) (Together Rel) x y) :
    Sim Rel Rel (withSelf self x) (withSelf self y) :=
  h.withSelf (fun _ _ h => h) fun _ _ h => ⟨rfl, h⟩

/-- **The calls of an encoder** on writers in step. -/
theorem run_together {ω' : Type} {R : ω → ω' → Prop} {f : Bytes → ω → Bool × ω}
    {g : Bytes → ω' → Bool × ω'}
    (h : ∀ slice s t, R s t → (f slice s).1 = (g slice t).1 ∧ R (f slice s).2 (g slice t).2)
    (d : Drive κ) {s : ω} {t : ω'} (hst : R s t) :
    (d.run f s).1 = (d.run g t).1 ∧ (d.run f s).2.1 = (d.run g t).2.1 ∧
      R (d.run f s).2.2 (d.run g t).2.2 := by
  induction d generalizing s t with
  | ret ok k => exact ⟨rfl, rfl, hst⟩
  | write slice next ih =>
    obtain ⟨hfst, hsnd⟩ := h slice s t hst
    rw [Drive.run, Drive.run, hfst]
    exact ih _ hsnd

section steps

variable {sink : BackupByteSink σ} {sink' : BackupByteSink τ}
  (hwrite : ∀ chunk, Sim Rel Rel (sink.write chunk) (sink'.write chunk))

include hwrite

/-! ## The envelope -/

section envelope

open EnvelopeWriter

theorem sim_writeEnvelopeBytes (bytes : Bytes) : Sim (Together Rel) (Together Rel)
    (writeEnvelopeBytes sink bytes) (writeEnvelopeBytes sink' bytes) := by
  have hchunk : ∀ chunk, Sim (Together Rel) (Together Rel)
      (onWorld (sink.write chunk) : Method EnvelopeWriter σ Unit) (onWorld (sink'.write chunk)) :=
    fun chunk => (hwrite chunk).onWorld (fun _ _ h => h.2) fun _ _ _ _ h hst => ⟨h.1, hst⟩
  have hchunks : ∀ l : List Bytes, Sim (Together Rel) (Together Rel)
      (l.forM fun chunk => (onWorld (sink.write chunk) : Method EnvelopeWriter σ Unit))
      (l.forM fun chunk => onWorld (sink'.write chunk)) := by
    intro l
    induction l with
    | nil => exact Sim.pure _
    | cons chunk l ih => exact (hchunk chunk).bind fun _ => ih
  unfold writeEnvelopeBytes
  refine sim_getSelf.bind fun self => (Sim.ofResult (fun _ _ h => h) _).bind fun _ => ?_
  exact (sim_modifySelf _).bind fun _ => hchunks _

theorem sim_writeEncryptedBlock (ciphertext : Bytes) : Sim (Together Rel) (Together Rel)
    (writeEncryptedBlock sink ciphertext) (writeEncryptedBlock sink' ciphertext) := by
  unfold writeEncryptedBlock
  refine Sim.ite (fun _ => sim_throw _) fun _ => sim_getSelf.bind fun self => ?_
  refine (Sim.ofResult (fun _ _ h => h) _).bind fun _ => (sim_modifySelf _).bind fun _ => ?_
  refine Sim.ite (fun _ => sim_throw _) fun _ => ?_
  exact (sim_writeEnvelopeBytes hwrite _).bind fun _ => sim_writeEnvelopeBytes hwrite _

variable (A : StreamAead)

theorem sim_drain (pending : Bytes) :
    Sim (Together Rel) (Together Rel) (drain A sink pending) (drain A sink' pending) := by
  induction pending using drain.induct with
  | case1 pending h remainder ih =>
    rw [drain, drain, dif_pos h, dif_pos h]
    refine (sim_modifySelf _).bind fun _ => sim_getSelf.bind fun self => ?_
    refine (sim_orThrow _ _).bind fun encryptor => (sim_orThrow _ _).bind fun r => ?_
    exact (sim_modifySelf _).bind fun _ => (sim_writeEncryptedBlock hwrite _).bind fun _ => ih
  | case2 pending h =>
    rw [drain, drain, dif_neg h, dif_neg h]
    exact Sim.pure _

/-- One write of the compressor. -/
theorem write_together (bytes : Bytes) (u : Owning EnvelopeWriter (World σ))
    (v : Owning EnvelopeWriter (World τ)) (h : Together Rel u v) :
    (EnvelopeWriter.write A sink bytes u).1 = (EnvelopeWriter.write A sink' bytes v).1 ∧
      Together Rel (EnvelopeWriter.write A sink bytes u).2
        (EnvelopeWriter.write A sink' bytes v).2 := by
  have hsim : Sim (Together Rel) (Together Rel) (writeCompressed A sink bytes)
      (writeCompressed A sink' bytes) := by
    unfold writeCompressed
    refine sim_getSelf.bind fun self => (Sim.ofResult (fun _ _ h => h) _).bind fun _ => ?_
    exact (sim_modifySelf _).bind fun _ => sim_getSelf.bind fun self => sim_drain hwrite A _
  have hagree := hsim u v h
  unfold EnvelopeWriter.write
  generalize (writeCompressed A sink bytes).run u = r, (writeCompressed A sink' bytes).run v = r'
    at hagree
  cases hagree with
  | ok h' => exact ⟨rfl, h'⟩
  | @error e s t h' =>
    refine ⟨rfl, ?_, h'.2⟩
    show ({ s.self with failure := some e } : EnvelopeWriter) = { t.self with failure := some e }
    rw [h'.1]

theorem sim_finishEnvelope (sha256 : Bytes → Bytes) : Sim (Together Rel) (Together Rel)
    (EnvelopeWriter.finish A sha256 sink) (EnvelopeWriter.finish A sha256 sink') := by
  unfold EnvelopeWriter.finish
  refine sim_getSelf.bind fun self => (sim_orThrow _ _).bind fun encryptor => ?_
  refine (sim_modifySelf _).bind fun _ => (sim_orThrow _ _).bind fun last => ?_
  refine (sim_writeEncryptedBlock hwrite _).bind fun _ => sim_getSelf.bind fun self => ?_
  exact Sim.pure _

end envelope

/-! ## The object writer -/

variable (A : StreamAead) (C : Compressor κ) (sha256 : Bytes → Bytes)

theorem sim_new (context : BackupObjectContextV1) (random : Option NoncePrefix) : Sim Rel Rel
    (BackupObjectWriterV1.new C sink context random)
    (BackupObjectWriterV1.new C sink' context random) := by
  unfold BackupObjectWriterV1.new EnvelopeWriter.new
  refine (Sim.orThrow (fun _ _ h => h) _ _).bind fun noncePrefix => Sim.bind ?_ fun envelope => ?_
  · exact (sim_withSelf _ (sim_writeEnvelopeBytes hwrite _)).bind fun r => Sim.pure _
  · exact (Sim.orThrow (fun _ _ h => h) _ _).bind fun encoder => Sim.pure _

omit hwrite in
theorem sim_fail {α : Type} (e : BackupErrorCode) : Sim (Together Rel) (Together Rel)
    (BackupObjectWriterV1.fail e : Method (BackupObjectWriterV1 κ) σ α)
    (BackupObjectWriterV1.fail e) :=
  (sim_modifySelf _).bind fun _ => sim_throw e

theorem sim_writePlaintext (bytes : Bytes) : Sim (Together Rel) (Together Rel)
    (BackupObjectWriterV1.writePlaintext A C sink bytes)
    (BackupObjectWriterV1.writePlaintext A C sink' bytes) := by
  unfold BackupObjectWriterV1.writePlaintext
  refine sim_getSelf.bind fun self => Sim.ite (fun _ => sim_throw _) fun _ => ?_
  refine (sim_orThrow _ _).bind fun active => ?_
  cases checkedAddLimited active.plaintextBytes bytes.length maxPlaintextObjectBytesV1 with
  | error e => exact sim_fail e
  | ok total =>
    refine sim_get_bind fun u v huv => ?_
    have hrun := run_together (write_together hwrite A) (C.writeAll active.encoder bytes)
      (together_of active.envelope huv)
    dsimp only
    generalize (C.writeAll active.encoder bytes).run (EnvelopeWriter.write A sink)
      ⟨active.envelope, u.world⟩ = r, (C.writeAll active.encoder bytes).run
        (EnvelopeWriter.write A sink') ⟨active.envelope, v.world⟩ = r' at hrun
    obtain ⟨ok, encoder, ⟨envelope, w⟩⟩ := r
    obtain ⟨ok', encoder', ⟨envelope', w'⟩⟩ := r'
    obtain ⟨rfl, rfl, rfl, hw⟩ := hrun
    refine (sim_setWorld hw).bind fun _ => Sim.ite (fun _ => sim_modifySelf _) fun _ => sim_fail _

theorem sim_finish : Sim (Together Rel) (Together Rel)
    (BackupObjectWriterV1.finish A C sha256 sink)
    (BackupObjectWriterV1.finish A C sha256 sink') := by
  unfold BackupObjectWriterV1.finish
  refine sim_getSelf.bind fun self => Sim.ite (fun _ => sim_throw _) fun _ => ?_
  refine (sim_orThrow _ _).bind fun active => sim_get_bind fun u v huv => ?_
  have hrun := run_together (write_together hwrite A) (C.tryFinish active.encoder)
    (together_of active.envelope huv)
  dsimp only
  generalize (C.tryFinish active.encoder).run (EnvelopeWriter.write A sink)
    ⟨active.envelope, u.world⟩ = r, (C.tryFinish active.encoder).run
      (EnvelopeWriter.write A sink') ⟨active.envelope, v.world⟩ = r' at hrun
  obtain ⟨ok, encoder, s⟩ := r
  obtain ⟨ok', encoder', s'⟩ := r'
  obtain ⟨rfl, rfl, hs⟩ := hrun
  refine (sim_setWorld hs.2).bind fun _ => Sim.ite (fun _ => ?_) fun _ => ?_
  · have hfinish := sim_finishEnvelope hwrite A sha256 s s' hs
    dsimp only
    generalize (EnvelopeWriter.finish A sha256 sink).run s = r,
      (EnvelopeWriter.finish A sha256 sink').run s' = r' at hfinish
    cases hfinish with
    | ok h => exact (sim_setWorld h.2).bind fun _ => (sim_modifySelf _).bind fun _ => Sim.pure _
    | error h => exact (sim_setWorld h.2).bind fun _ => sim_fail _
  · dsimp only
    rw [hs.1]
    exact sim_fail _

/-! ## Sealing -/

variable {source : BackupByteSource σ} {source' : BackupByteSource τ}
  (hcancelled : Sim Rel Rel source.cancelled source'.cancelled)
  (hread : ∀ n, Sim Rel Rel (source.read n) (source'.read n))

include hcancelled hread

theorem sim_sealLoop (rounds : ℕ) (writer : BackupObjectWriterV1 κ) : Sim Rel Rel
    (sealLoop A C sha256 source sink rounds writer)
    (sealLoop A C sha256 source' sink' rounds writer) := by
  have hthrow : ∀ e : BackupErrorCode, Sim Rel Rel
      (throw e : Call σ BackupObjectDescriptor) (throw e) := Sim.throw fun _ _ h => h
  induction rounds generalizing writer with
  | zero => exact hthrow _
  | succ rounds ih =>
    rw [sealLoop, sealLoop]
    refine hcancelled.bind fun _ => Sim.ite (fun _ => hthrow _) fun _ => ?_
    refine (hread _).bind fun data => Sim.ite (fun _ => hthrow _) fun _ => ?_
    refine hcancelled.bind fun _ => Sim.ite (fun _ => hthrow _) fun _ => ?_
    refine Sim.ite (fun _ => ?_) fun _ => ?_
    · exact (sim_withSelf _ (sim_finish hwrite A C sha256)).bind fun r => Sim.pure _
    · exact (sim_withSelf _ (sim_writePlaintext hwrite A C data)).bind fun r => ih _

/-- **Sealing an object** for two callers in step. -/
theorem sim_sealObjectV1 (context : BackupObjectContextV1) (random : Option NoncePrefix) :
    Sim Rel Rel (sealObjectV1 A C sha256 source sink context random)
      (sealObjectV1 A C sha256 source' sink' context random) := by
  unfold sealObjectV1
  refine hcancelled.bind fun _ => Sim.ite (fun _ => Sim.throw (fun _ _ h => h) _) fun _ => ?_
  refine (sim_new hwrite C context random).bind fun writer => ?_
  exact sim_sealLoop hwrite A C sha256 hcancelled hread _ writer

end steps

/-! ## What one caller keeps -/

section keeps

variable {J : World σ → Prop} {sink : BackupByteSink σ} {source : BackupByteSource σ}
  (hwrite : ∀ chunk, Preserves J J (sink.write chunk)) (A : StreamAead) (C : Compressor κ)
  (sha256 : Bytes → Bytes)

/-- A property of the world, of an object that acts on it. -/
def OnWorld (J : World σ → Prop) (s : Owning ω (World σ)) : Prop := J s.world

/-- What a method does in step with itself, it keeps. -/
theorem preserves_of_together {α : Type} {x : Method ω σ α}
    (h : Sim (Together fun w v => w = v ∧ J w) (Together fun w v => w = v ∧ J w) x x) :
    Preserves (OnWorld J) (OnWorld J) x := by
  intro s hs
  have hx := h s s ⟨rfl, rfl, hs⟩
  cases hr : x.run s with
  | ok a s' =>
    rw [hr] at hx
    cases hx with
    | ok h' => exact (wp_of_ok hr).mpr h'.2.2
  | error e s' =>
    rw [hr] at hx
    cases hx with
    | error h' => exact (wp_of_error hr).mpr h'.2.2

include hwrite

theorem new_keeps (context : BackupObjectContextV1) (random : Option NoncePrefix) :
    Preserves J J (BackupObjectWriterV1.new C sink context random) := fun _ hw =>
  (sim_new (fun chunk => Sim.of_keeps (hwrite chunk)) C context random).keeps hw

theorem writePlaintext_keeps (bytes : Bytes) :
    Preserves (OnWorld J) (OnWorld J) (BackupObjectWriterV1.writePlaintext A C sink bytes) :=
  preserves_of_together (sim_writePlaintext (fun chunk => Sim.of_keeps (hwrite chunk)) A C bytes)

theorem finish_keeps :
    Preserves (OnWorld J) (OnWorld J) (BackupObjectWriterV1.finish A C sha256 sink) :=
  preserves_of_together (sim_finish (fun chunk => Sim.of_keeps (hwrite chunk)) A C sha256)

/-- **Sealing an object** keeps what its source and its sink keep. -/
theorem sealObjectV1_keeps (hcancelled : Preserves J J source.cancelled)
    (hread : ∀ n, Preserves J J (source.read n)) (context : BackupObjectContextV1)
    (random : Option NoncePrefix) :
    Preserves J J (sealObjectV1 A C sha256 source sink context random) := fun _ hw =>
  (sim_sealObjectV1 (fun chunk => Sim.of_keeps (hwrite chunk)) A C sha256 (Sim.of_keeps hcancelled)
    (fun n => Sim.of_keeps (hread n)) context random).keeps hw

end keeps

end KChat.Backup
