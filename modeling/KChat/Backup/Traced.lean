import KChat.Backup.Unfinished

/-!
# The writer with a record of its encryptions

* `Encryption`: one use of the STREAM encryptor that gave a ciphertext.
* `Traced.drain`, …, `Traced.finish`: the methods of the writer, each encryption recorded beside the
  state of the caller.
* `Erases`: without the record a method does what the writer does; **`call_erases`**.
-/

namespace KChat.Backup

open Lib

variable {σ κ ι ω α : Type}

/-- A use of the encryptor: key, nonce prefix and counter, whether it was the last, what was
encrypted, and how many blocks the envelope had counted before. -/
structure Encryption where
  key : Bytes
  nonce : Bytes
  position : ℕ
  last : Bool
  aad : Bytes
  msg : Bytes
  blockCount : ℕ

def BackupByteSink.traced (sink : BackupByteSink σ) : BackupByteSink (σ × List ι) where
  writeChunk chunk := zoom Prod.fst (fun s t => (s, t.2)) (sink.writeChunk chunk)

def World.encryptions (w : World (σ × List Encryption)) : List Encryption := w.foreign.2

namespace Traced

def note (e : Encryption) : Method ω (σ × List Encryption) Unit :=
  onWorld (modify fun w => { w with foreign := (w.foreign.1, w.foreign.2 ++ [e]) })

variable (A : StreamAead) (C : Compressor κ) (sha256 : Bytes → Bytes) (sink : BackupByteSink σ)

def encryption (self : EnvelopeWriter) (encryptor : StreamEncryptor) (last : Bool) (msg : Bytes) :
    Encryption where
  key := encryptor.key
  nonce := encryptor.nonce
  position := encryptor.position
  last := last
  aad := self.canonicalContext
  msg := msg
  blockCount := self.blockCount

def drain (pending : Bytes) : Method EnvelopeWriter (σ × List Encryption) Unit :=
  if _h : compressedBlockBytes ≤ pending.length then do
    let block := pending.take compressedBlockBytes
    let remainder := pending.drop compressedBlockBytes
    modifySelf fun self => { self with pending := remainder }
    let self ← getSelf
    let encryptor ← orThrow self.encryptor .invalidState
    let r ← orThrow (encryptor.encryptNext A self.canonicalContext block) .invalidState
    note (encryption self encryptor false block)
    modifySelf fun self => { self with encryptor := some r.2 }
    EnvelopeWriter.writeEncryptedBlock sink.traced r.1
    drain remainder
  else pure ()
termination_by pending.length
decreasing_by
  rw [List.length_drop]
  simp only [compressedBlockBytes] at _h ⊢
  omega

def writeCompressed (bytes : Bytes) : Method EnvelopeWriter (σ × List Encryption) Unit := do
  let self ← getSelf
  let compressedBytes ← ofResult
    (checkedAddLimited self.compressedBytes bytes.length maxCompressedObjectBytesV1)
  modifySelf fun self =>
    { self with compressedBytes := compressedBytes, pending := self.pending ++ bytes }
  let self ← getSelf
  drain A sink self.pending

def write (bytes : Bytes) (s : Owning EnvelopeWriter (World (σ × List Encryption))) :
    Bool × Owning EnvelopeWriter (World (σ × List Encryption)) :=
  match (writeCompressed A sink bytes).run s with
  | .ok _ s => (true, s)
  | .error e s => (false, { s with self := { s.self with failure := some e } })

def finishEnvelope : Method EnvelopeWriter (σ × List Encryption) BackupObjectDescriptor := do
  let self ← getSelf
  let encryptor ← orThrow self.encryptor .invalidState
  modifySelf fun self => { self with encryptor := none, pending := [] }
  let ciphertext ← orThrow (encryptor.encryptLast A self.canonicalContext self.pending)
    .invalidState
  note (encryption self encryptor true self.pending)
  EnvelopeWriter.writeEncryptedBlock sink.traced ciphertext
  let self ← getSelf
  return { ciphertextSize := self.ciphertextBytes
           ciphertextSha256 := sha256 self.hash
           formatVersion := envelopeVersion }

def writePlaintext (bytes : Bytes) :
    Method (BackupObjectWriterV1 κ) (σ × List Encryption) Unit := do
  let self ← getSelf
  if self.terminal ≠ .active then
    throw .invalidState
  let active ← orThrow self.active .invalidState
  match checkedAddLimited active.plaintextBytes bytes.length maxPlaintextObjectBytesV1 with
  | .error e => BackupObjectWriterV1.fail e
  | .ok plaintextBytes =>
    let s ← get
    let r := (C.writeAll active.encoder bytes).run (write A sink) ⟨active.envelope, s.world⟩
    onWorld (set r.2.2.world)
    if r.1 then
      modifySelf fun self =>
        { self with active := some { encoder := r.2.1, envelope := r.2.2.self, plaintextBytes } }
    else BackupObjectWriterV1.fail r.2.2.self.takeFailure

def finish : Method (BackupObjectWriterV1 κ) (σ × List Encryption) BackupObjectDescriptor := do
  let self ← getSelf
  if self.terminal ≠ .active then
    throw .invalidState
  let active ← orThrow self.active .invalidState
  let s ← get
  let r := (C.tryFinish active.encoder).run (write A sink) ⟨active.envelope, s.world⟩
  onWorld (set r.2.2.world)
  if r.1 then
    match (finishEnvelope A sha256 sink).run r.2.2 with
    | .ok descriptor s =>
      onWorld (set s.world)
      modifySelf fun _ => { active := none, terminal := .finished }
      return descriptor
    | .error e s =>
      onWorld (set s.world)
      BackupObjectWriterV1.fail e
  else BackupObjectWriterV1.fail r.2.2.self.takeFailure

/-! ## Sequences of calls -/

/-- The result of a call: the descriptor if there is one. -/
def call : WriterCall →
    Method (BackupObjectWriterV1 κ) (σ × List Encryption) (Option BackupObjectDescriptor)
  | .writePlaintext bytes => do
    writePlaintext A C sink bytes
    return none
  | .finish => some <$> finish A C sha256 sink
  | .abort => do
    BackupObjectWriterV1.abort
    return none

/-- Call after call, also after an error. -/
def callAll : List WriterCall → Method (BackupObjectWriterV1 κ) (σ × List Encryption)
    (List (Except BackupErrorCode (Option BackupObjectDescriptor)))
  | [] => return []
  | next :: calls => do
    let result ← attempt (call A C sha256 sink next)
    return result :: (← callAll calls)

end Traced

/-! ## The record aside -/

def eraseWorld (w : World (σ × List ι)) : World σ where
  foreign := w.foreign.1
  delivered := w.delivered

def erase (s : Owning ω (World (σ × List ι))) : Owning ω (World σ) where
  self := s.self
  world := eraseWorld s.world

/-- **Without the record** the one computation does what the other does. -/
def Erases (x : Method ω (σ × List ι) α) (y : Method ω σ α) : Prop :=
  Sim (fun s t => erase s = t) (fun s t => erase s = t) x y

def ErasesCall (x : Call (σ × List ι) α) (y : Call σ α) : Prop :=
  Sim (fun w v => eraseWorld w = v) (fun w v => eraseWorld w = v) x y

/-- The state with a record. -/
def recording (log : List ι) (v : World σ) : World (σ × List ι) where
  foreign := (v.foreign, log)
  delivered := v.delivered

/-- **Beside any record**, which it leaves as it is, the one computation does what the other does. -/
def Carries (x : Call (σ × List ι) α) (y : Call σ α) : Prop :=
  ∀ log : List ι, Sim (fun w v => w = recording log v) (fun w v => w = recording log v) x y

namespace Carries

variable {x : Call (σ × List ι) α} {y : Call σ α}

theorem erases (h : Carries x y) : ErasesCall x y := by
  rintro w _ rfl
  have hagree : Agree (fun w' v => w' = recording w.foreign.2 v)
      (fun w' v => w' = recording w.foreign.2 v) (x.run w) (y.run (eraseWorld w)) :=
    h w.foreign.2 w _ rfl
  generalize x.run w = r, y.run (eraseWorld w) = r' at hagree ⊢
  cases hagree with
  | ok hrel =>
    subst hrel
    exact .ok rfl
  | error hrel =>
    subst hrel
    exact .error rfl

/-- What holds of the record before holds of it afterwards. -/
theorem wp_keeps (h : Carries x y) {log : List ι} {P : List ι → Prop}
    {Q : α → World (σ × List ι) → Prop} {w : World (σ × List ι)} (hw : w.foreign.2 = log)
    (hE : P log) (hQ : ∀ a w', w'.foreign.2 = log → Q a w') :
    wp x w Q fun _ w' => P w'.foreign.2 := by
  have hagree : Agree (fun w' v => w' = recording log v) (fun w' v => w' = recording log v)
      (x.run w) (y.run (eraseWorld w)) := by
    apply h log w
    rw [← hw]
    rfl
  apply wp_of_agree hagree (wp_true _ _)
  · rintro a w' v rfl _
    exact hQ a _ rfl
  · rintro _ w' v rfl _
    exact hE

end Carries

section erases

variable {A : StreamAead} {C : Compressor κ} {sha256 : Bytes → Bytes} {sink : BackupByteSink σ}

theorem erases_getSelf : Erases (getSelf : Method ω (σ × List ι) ω) getSelf := by
  rintro s _ rfl
  exact .ok rfl

theorem erases_modifySelf (f : ω → ω) :
    Erases (modifySelf f : Method ω (σ × List ι) PUnit) (modifySelf f) := by
  rintro s _ rfl
  exact .ok rfl

theorem erases_note_bind {e : Encryption} {x : PUnit → Method ω (σ × List Encryption) α}
    {y : Method ω σ α} (h : Erases (x ⟨⟩) y) : Erases (Traced.note e >>= x) y := by
  rintro s _ rfl
  exact h ⟨s.self, ⟨(s.world.foreign.1, s.world.foreign.2 ++ [e]), s.world.delivered⟩⟩ _ rfl

theorem write_carries (chunk : Bytes) :
    Carries (ι := ι) (sink.traced.write chunk) (sink.write chunk) := by
  intro log
  unfold BackupByteSink.write
  apply Sim.bind
  · rintro _ v rfl
    exact .ok rfl
  · rintro _ _ v rfl
    change Agree _ _ (onForeign (sink.traced.writeChunk chunk) (recording log v))
      (onForeign (sink.writeChunk chunk) v)
    simp only [onForeign, zoom, EStateM.run, BackupByteSink.traced, recording]
    cases sink.writeChunk chunk v.foreign with
    | ok a foreign => exact .ok rfl
    | error e foreign => exact .error rfl

theorem erases_write (chunk : Bytes) :
    Erases (onWorld (sink.traced.write chunk) : Method ω (σ × List ι) Unit)
      (onWorld (sink.write chunk)) := by
  rintro s _ rfl
  have h : Agree _ _ ((sink.traced.write chunk).run s.world)
      ((sink.write chunk).run (eraseWorld s.world)) := (write_carries chunk).erases s.world _ rfl
  change Agree _ _ (onWorld (sink.traced.write chunk) s) (onWorld (sink.write chunk) (erase s))
  unfold onWorld zoom
  dsimp only [erase]
  generalize (sink.traced.write chunk).run s.world = r,
    (sink.write chunk).run (eraseWorld s.world) = r' at h
  cases h with
  | ok h =>
    subst h
    exact .ok rfl
  | error h =>
    subst h
    exact .error rfl

theorem erases_forM (bytes : List Bytes) :
    Erases (bytes.forM fun chunk => (onWorld (sink.traced.write chunk) :
        Method ω (σ × List ι) Unit))
      (bytes.forM fun chunk => onWorld (sink.write chunk)) := by
  induction bytes with
  | nil => exact Sim.pure _
  | cons chunk bytes ih => exact Sim.bind (erases_write chunk) fun _ => ih

theorem erases_writeEnvelopeBytes (bytes : Bytes) :
    Erases (ι := Encryption) (EnvelopeWriter.writeEnvelopeBytes sink.traced bytes)
      (EnvelopeWriter.writeEnvelopeBytes sink bytes) := by
  unfold EnvelopeWriter.writeEnvelopeBytes
  refine Sim.bind erases_getSelf fun self => Sim.bind (Sim.ofResult (fun _ _ h => h) _) fun _ => ?_
  exact Sim.bind (erases_modifySelf _) fun _ => erases_forM _

theorem erases_writeEncryptedBlock (ct : Bytes) :
    Erases (ι := Encryption) (EnvelopeWriter.writeEncryptedBlock sink.traced ct)
      (EnvelopeWriter.writeEncryptedBlock sink ct) := by
  unfold EnvelopeWriter.writeEncryptedBlock
  refine Sim.ite (fun _ => Sim.throw (fun _ _ h => h) _) fun _ => ?_
  refine Sim.bind erases_getSelf fun self => ?_
  refine Sim.bind (Sim.ofResult (fun _ _ h => h) _) fun _ => ?_
  refine Sim.bind (erases_modifySelf _) fun _ => ?_
  refine Sim.ite (fun _ => Sim.throw (fun _ _ h => h) _) fun _ => ?_
  exact Sim.bind (erases_writeEnvelopeBytes _) fun _ => erases_writeEnvelopeBytes _

theorem erases_drain (pending : Bytes) :
    Erases (Traced.drain A sink pending) (EnvelopeWriter.drain A sink pending) := by
  have hB : 0 < compressedBlockBytes := by decide
  induction pending using block_induction hB with
  | short pending hlt =>
    rw [Traced.drain, EnvelopeWriter.drain, dif_neg (by omega), dif_neg (by omega)]
    exact Sim.pure ()
  | step b rest hb ih =>
    have hlength : compressedBlockBytes ≤ (b ++ rest).length := by
      rw [List.length_append]
      omega
    rw [Traced.drain, EnvelopeWriter.drain, dif_pos hlength, dif_pos hlength]
    simp only [List.take_left' hb, List.drop_left' hb]
    refine Sim.bind (erases_modifySelf _) fun _ => Sim.bind erases_getSelf fun self => ?_
    refine Sim.bind (Sim.orThrow (fun _ _ h => h) _ _) fun encryptor => ?_
    refine Sim.bind (Sim.orThrow (fun _ _ h => h) _ _) fun r => erases_note_bind ?_
    refine Sim.bind (erases_modifySelf _) fun _ => ?_
    exact Sim.bind (erases_writeEncryptedBlock _) fun _ => ih

theorem erases_writeCompressed (bytes : Bytes) :
    Erases (Traced.writeCompressed A sink bytes) (EnvelopeWriter.writeCompressed A sink bytes) := by
  unfold Traced.writeCompressed EnvelopeWriter.writeCompressed
  refine Sim.bind erases_getSelf fun self => Sim.bind (Sim.ofResult (fun _ _ h => h) _) fun _ => ?_
  refine Sim.bind (erases_modifySelf _) fun _ => Sim.bind erases_getSelf fun self => ?_
  exact erases_drain _

variable (A sha256 sink) in
theorem erases_finishEnvelope : Erases (Traced.finishEnvelope A sha256 sink)
    (EnvelopeWriter.finish A sha256 sink) := by
  unfold Traced.finishEnvelope EnvelopeWriter.finish
  refine Sim.bind erases_getSelf fun self => ?_
  refine Sim.bind (Sim.orThrow (fun _ _ h => h) _ _) fun encryptor => ?_
  refine Sim.bind (erases_modifySelf _) fun _ => ?_
  refine Sim.bind (Sim.orThrow (fun _ _ h => h) _ _) fun ct => erases_note_bind ?_
  refine Sim.bind (erases_writeEncryptedBlock _) fun _ => Sim.bind erases_getSelf fun self => ?_
  exact Sim.pure _

theorem write_erase (bytes : Bytes) (s : Owning EnvelopeWriter (World (σ × List Encryption))) :
    EnvelopeWriter.write A sink bytes (erase s) =
      ((Traced.write A sink bytes s).1, erase (Traced.write A sink bytes s).2) := by
  have h : Agree _ _ ((Traced.writeCompressed A sink bytes).run s)
      ((EnvelopeWriter.writeCompressed A sink bytes).run (erase s)) :=
    erases_writeCompressed bytes s _ rfl
  unfold EnvelopeWriter.write Traced.write
  generalize (Traced.writeCompressed A sink bytes).run s = r,
    (EnvelopeWriter.writeCompressed A sink bytes).run (erase s) = r' at h
  cases h with
  | ok h =>
    subst h
    rfl
  | error h =>
    subst h
    rfl

variable (A sink) in
theorem run_erase (d : Drive κ) (s : Owning EnvelopeWriter (World (σ × List Encryption))) :
    d.run (EnvelopeWriter.write A sink) (erase s) =
      ((d.run (Traced.write A sink) s).1, (d.run (Traced.write A sink) s).2.1,
        erase (d.run (Traced.write A sink) s).2.2) := by
  induction d generalizing s with
  | ret ok k => rfl
  | write slice next ih =>
    rw [Drive.run, Drive.run, write_erase]
    exact ih _ _

theorem erases_get_bind
    {f : Owning ω (World (σ × List ι)) → Method ω (σ × List ι) α}
    {g : Owning ω (World σ) → Method ω σ α} (h : ∀ s, Erases (f s) (g (erase s))) :
    Erases (get >>= f) (get >>= g) := by
  rintro s _ rfl
  exact h s s _ rfl

theorem erases_setWorld (w : World (σ × List ι)) :
    Erases (onWorld (set w) : Method ω (σ × List ι) PUnit)
      (onWorld (set (eraseWorld w)) : Method ω σ PUnit) := by
  rintro s _ rfl
  exact .ok rfl

theorem erases_fail (e : BackupErrorCode) :
    Erases (BackupObjectWriterV1.fail e : Method (BackupObjectWriterV1 κ) (σ × List ι) α)
      (BackupObjectWriterV1.fail e : Method (BackupObjectWriterV1 κ) σ α) :=
  Sim.bind (erases_modifySelf _) fun _ => Sim.throw (fun _ _ h => h) _

theorem erases_writePlaintext (bytes : Bytes) : Erases (Traced.writePlaintext A C sink bytes)
    (BackupObjectWriterV1.writePlaintext A C sink bytes) := by
  unfold Traced.writePlaintext BackupObjectWriterV1.writePlaintext
  refine Sim.bind erases_getSelf fun self => ?_
  refine Sim.ite (fun _ => Sim.throw (fun _ _ h => h) _) fun _ => ?_
  refine Sim.bind (Sim.orThrow (fun _ _ h => h) _ _) fun active => ?_
  cases checkedAddLimited active.plaintextBytes bytes.length maxPlaintextObjectBytesV1 with
  | error e => exact erases_fail e
  | ok total =>
    refine erases_get_bind fun s => ?_
    have hrun := run_erase A sink (C.writeAll active.encoder bytes)
      ⟨active.envelope, s.world⟩
    dsimp only
    rw [show (⟨active.envelope, (erase s).world⟩ : Owning EnvelopeWriter (World σ)) =
      erase ⟨active.envelope, s.world⟩ from rfl, hrun]
    refine Sim.bind (erases_setWorld _) fun _ => Sim.ite (fun _ => ?_) fun _ => erases_fail _
    exact erases_modifySelf _

theorem erases_finish : Erases (Traced.finish A C sha256 sink)
    (BackupObjectWriterV1.finish A C sha256 sink) := by
  unfold Traced.finish BackupObjectWriterV1.finish
  refine Sim.bind erases_getSelf fun self => ?_
  refine Sim.ite (fun _ => Sim.throw (fun _ _ h => h) _) fun _ => ?_
  refine Sim.bind (Sim.orThrow (fun _ _ h => h) _ _) fun active => erases_get_bind fun s => ?_
  have hrun := run_erase A sink (C.tryFinish active.encoder)
    ⟨active.envelope, s.world⟩
  dsimp only
  rw [show (⟨active.envelope, (erase s).world⟩ : Owning EnvelopeWriter (World σ)) =
    erase ⟨active.envelope, s.world⟩ from rfl, hrun]
  refine Sim.bind (erases_setWorld _) fun _ => Sim.ite (fun _ => ?_) fun _ => erases_fail _
  have hfinish := erases_finishEnvelope A sha256 sink
    ((C.tryFinish active.encoder).run (Traced.write A sink) ⟨active.envelope, s.world⟩).2.2 _ rfl
  dsimp only
  generalize (Traced.finishEnvelope A sha256 sink).run
      ((C.tryFinish active.encoder).run (Traced.write A sink) ⟨active.envelope, s.world⟩).2.2 = r,
    (EnvelopeWriter.finish A sha256 sink).run (erase
      ((C.tryFinish active.encoder).run (Traced.write A sink) ⟨active.envelope, s.world⟩).2.2) = r'
    at hfinish
  cases hfinish with
  | ok h =>
    subst h
    exact Sim.bind (erases_setWorld _) fun _ => Sim.bind (erases_modifySelf _) fun _ => Sim.pure _
  | error h =>
    subst h
    exact Sim.bind (erases_setWorld _) fun _ => erases_fail _

theorem erases_abort :
    Erases (BackupObjectWriterV1.abort : Method (BackupObjectWriterV1 κ) (σ × List ι) Unit)
      BackupObjectWriterV1.abort := by
  unfold BackupObjectWriterV1.abort
  refine Sim.bind erases_getSelf fun self => ?_
  refine Sim.ite (fun _ => Sim.throw (fun _ _ h => h) _) fun _ => ?_
  exact erases_modifySelf _

variable (A C sha256 sink) in
def WriterCall.perform :
    WriterCall → Method (BackupObjectWriterV1 κ) σ (Option BackupObjectDescriptor)
  | .writePlaintext bytes => do
    BackupObjectWriterV1.writePlaintext A C sink bytes
    return none
  | .finish => some <$> BackupObjectWriterV1.finish A C sha256 sink
  | .abort => do
    BackupObjectWriterV1.abort
    return none

/-- **The record changes no call.** -/
theorem call_erases (next : WriterCall) :
    Erases (Traced.call A C sha256 sink next) (next.perform A C sha256 sink) := by
  cases next with
  | writePlaintext bytes => exact Sim.bind (erases_writePlaintext bytes) fun _ => Sim.pure none
  | finish => exact Sim.map erases_finish
  | abort => exact Sim.bind erases_abort fun _ => Sim.pure none

end erases

end KChat.Backup
