import KChat.Backup.Traced
import KChat.Lib.StoredZstd

/-!
# The writer's typestate and its nonces

The compressor and the sink are any: the one may write again after a failure, the other may fail at
every chunk.

* `Numbered`: the encryptions so far carry one key, one nonce prefix and the counters `0, 1, …`, and
  none but the latest is a last one. `InUse`: the encryptor carries the next counter.
* `drain_inUse`, `write_inUse`, `run_inUse`: whatever fails, the encryptor stays in use.
* `Disciplined`: the typestate of the writer, and its encryptions; `call_disciplined`.
* `callAll_over`: a writer that is not active does nothing. **`writer_disciplined`**.
-/

namespace KChat.Backup

open Lib

variable {σ κ : Type}

/-- Key, nonce prefix, counter and flag: what must not occur twice. -/
def Encryption.streamNonce (e : Encryption) : Bytes × Bytes × ℕ × Bool :=
  (e.key, e.nonce, e.position, e.last)

/-- **The counters go up by one** under one key and one prefix, and a last block is the last. -/
structure Numbered (key nonce : Bytes) (log : List Encryption) : Prop where
  key : ∀ e ∈ log, e.key = key
  nonce : ∀ e ∈ log, e.nonce = nonce
  position : log.map Encryption.position = List.range log.length
  last : ∀ e ∈ log.dropLast, e.last = false

namespace Numbered

variable {key nonce : Bytes} {log : List Encryption}

theorem nil : Numbered key nonce [] := ⟨by simp, by simp, rfl, by simp⟩

theorem position_nodup (h : Numbered key nonce log) : (log.map Encryption.position).Nodup := by
  rw [h.position]
  exact List.nodup_range

theorem streamNonce_nodup (h : Numbered key nonce log) :
    (log.map Encryption.streamNonce).Nodup := by
  have hposition : (log.map Encryption.streamNonce).map (fun n => n.2.2.1) =
      log.map Encryption.position := by
    rw [List.map_map]
    rfl
  have hnodup := h.position_nodup
  rw [← hposition] at hnodup
  exact List.Pairwise.of_map _ (fun n n' hne heq => hne (congrArg (fun n => n.2.2.1) heq)) hnodup

theorem last_once (h : Numbered key nonce log) : (log.filter Encryption.last).length ≤ 1 := by
  by_cases hnil : log = []
  · simp [hnil]
  have hinit : log.dropLast.filter Encryption.last = [] := by
    rw [List.filter_eq_nil_iff]
    intro e he
    simp [h.last e he]
  rw [← List.dropLast_append_getLast hnil, List.filter_append, hinit, List.nil_append]
  exact List.length_filter_le _ _

theorem append (h : Numbered key nonce log) (hlast : ∀ e ∈ log, e.last = false) {e : Encryption}
    (hkey : e.key = key) (hnonce : e.nonce = nonce) (hposition : e.position = log.length) :
    Numbered key nonce (log ++ [e]) where
  key e' he' := by
    rcases List.mem_append.mp he' with he' | he'
    · exact h.key e' he'
    · rwa [List.mem_singleton.mp he']
  nonce e' he' := by
    rcases List.mem_append.mp he' with he' | he'
    · exact h.nonce e' he'
    · rwa [List.mem_singleton.mp he']
  position := by
    rw [List.map_append, h.position, List.length_append, List.length_singleton, List.range_succ,
      List.map_singleton, hposition]
  last := by
    rw [List.dropLast_concat]
    exact hlast

end Numbered

/-! ## The envelope -/

/-- **The encryptor is in use**: no last block yet, and the next counter is its own. -/
structure InUse (key nonce : Bytes) (s : Owning EnvelopeWriter (World (σ × List Encryption))) :
    Prop where
  numbered : Numbered key nonce s.world.encryptions
  last : ∀ e ∈ s.world.encryptions, e.last = false
  encryptor : s.self.encryptor =
    some { key := key, nonce := nonce, position := s.world.encryptions.length }

section envelope

variable {A : StreamAead} {C : Compressor κ} {sha256 : Bytes → Bytes} {sink : BackupByteSink σ}
  {key nonce : Bytes}

/-- A state with the same encryptor and the same encryptions. -/
def Unused (s s' : Owning EnvelopeWriter (World (σ × List Encryption))) : Prop :=
  s'.self.encryptor = s.self.encryptor ∧ s'.world.encryptions = s.world.encryptions

theorem InUse.of_unused {s s' : Owning EnvelopeWriter (World (σ × List Encryption))}
    (h : InUse key nonce s) (hs' : Unused s s') : InUse key nonce s' where
  numbered := hs'.2 ▸ h.numbered
  last := hs'.2 ▸ h.last
  encryptor := by rw [hs'.1, hs'.2, h.encryptor]

theorem writeEnvelopeBytes_unused (bytes : Bytes)
    (s : Owning EnvelopeWriter (World (σ × List Encryption))) :
    wp (EnvelopeWriter.writeEnvelopeBytes sink.traced bytes) s (fun _ => Unused s)
      fun _ => Unused s := by
  have hwrite : ∀ chunk (w : World (σ × List Encryption)), wp (sink.traced.write chunk) w
      (fun _ w' => w'.encryptions = w.encryptions) fun _ w' => w'.encryptions = w.encryptions := by
    intro chunk w
    rw [BackupByteSink.write, wp_bind, wp_modify, onForeign, wp_zoom, BackupByteSink.traced, wp_zoom]
    exact wp_mono (wp_true _ _) (fun _ _ _ => rfl) fun _ _ _ => rfl
  simp only [EnvelopeWriter.writeEnvelopeBytes, wp_bind, wp_getSelf, wp_modifySelf]
  apply wp_ofResult
  · intro total _
    refine wp_forM (fun _ => Unused s) _ (fun _ chunk t _ ht => ?_) ⟨rfl, rfl⟩
    rw [wp_onWorld]
    exact wp_mono (hwrite chunk t.world) (fun _ w hw => ⟨ht.1, hw.trans ht.2⟩)
      fun _ w hw => ⟨ht.1, hw.trans ht.2⟩
  · exact fun _ _ => ⟨rfl, rfl⟩

theorem Unused.trans {s s' s'' : Owning EnvelopeWriter (World (σ × List Encryption))}
    (h : Unused s s') (h' : Unused s' s'') : Unused s s'' :=
  ⟨h'.1.trans h.1, h'.2.trans h.2⟩

theorem writeEncryptedBlock_unused (ct : Bytes)
    (s : Owning EnvelopeWriter (World (σ × List Encryption))) :
    wp (EnvelopeWriter.writeEncryptedBlock sink.traced ct) s (fun _ => Unused s)
      fun _ => Unused s := by
  unfold EnvelopeWriter.writeEncryptedBlock
  refine wp_ite (fun _ => ⟨rfl, rfl⟩) fun _ => ?_
  simp only [wp_bind, wp_getSelf]
  refine wp_ofResult (fun total _ => ?_) fun _ _ => ⟨rfl, rfl⟩
  rw [wp_modifySelf]
  refine wp_ite (fun _ => ⟨rfl, rfl⟩) fun _ => ?_
  rw [wp_bind]
  refine wp_mono (writeEnvelopeBytes_unused _ _) (fun _ t ht => ?_) fun _ _ ht => ht
  exact wp_mono (writeEnvelopeBytes_unused ct t) (fun _ _ ht' => Unused.trans ht ht')
    fun _ _ ht' => Unused.trans ht ht'

/-- **The loop over the pending bytes**: a block that the sink refuses has used its counter up. -/
theorem drain_inUse (pending : Bytes) {s : Owning EnvelopeWriter (World (σ × List Encryption))}
    (h : InUse key nonce s) : wp (Traced.drain A sink pending) s (fun _ => InUse key nonce)
      fun _ => InUse key nonce := by
  have hB : 0 < compressedBlockBytes := by decide
  induction pending using block_induction hB generalizing s with
  | short pending hlt =>
    rw [Traced.drain, dif_neg (by omega)]
    exact h
  | step b rest hb ih =>
    rw [Traced.drain, dif_pos (by rw [List.length_append]; omega)]
    simp only [List.take_left' hb, List.drop_left' hb, wp_bind, wp_modifySelf, wp_getSelf]
    have hs : InUse key nonce { s with self := { s.self with pending := rest } } :=
      h.of_unused ⟨rfl, rfl⟩
    refine wp_orThrow (fun encryptor hencryptor => ?_) fun _ => hs
    refine wp_orThrow (fun r hr => ?_) fun _ => hs
    obtain ⟨ct, encryptor'⟩ := r
    obtain ⟨-, rfl⟩ := StreamEncryptor.encryptNext_eq_some hr
    obtain rfl := Option.some.inj (hs.encryptor.symm.trans hencryptor)
    rw [Traced.note, wp_onWorld, wp_modify]
    have hnext : InUse key nonce
        { self := { s.self with
            pending := rest
            encryptor := some
              { key := key, nonce := nonce, position := s.world.encryptions.length + 1 } }
          world := { s.world with
            foreign := (s.world.foreign.1, s.world.foreign.2 ++
              [Traced.encryption { s.self with pending := rest }
                { key := key, nonce := nonce, position := s.world.encryptions.length } false b]) } }
        := by
      constructor
      · exact h.numbered.append h.last rfl rfl rfl
      · intro e he
        rcases List.mem_append.mp he with he | he
        · exact h.last e he
        · rw [List.mem_singleton.mp he, Traced.encryption]
      · simp [World.encryptions]
    refine wp_mono (writeEncryptedBlock_unused ct _) (fun _ t ht => ?_) fun _ t ht => ?_
    · exact ih (hnext.of_unused ht)
    · exact hnext.of_unused ht

theorem write_inUse (bytes : Bytes) (s : Owning EnvelopeWriter (World (σ × List Encryption)))
    (h : InUse key nonce s) : InUse key nonce (Traced.write A sink bytes s).2 := by
  have hspec : wp (Traced.writeCompressed A sink bytes) s (fun _ => InUse key nonce)
      fun _ => InUse key nonce := by
    simp only [Traced.writeCompressed, wp_bind, wp_getSelf, wp_modifySelf]
    apply wp_ofResult
    · intro total _
      exact drain_inUse _ (h.of_unused ⟨rfl, rfl⟩)
    · exact fun _ _ => h
  unfold Traced.write
  cases hrun : (Traced.writeCompressed A sink bytes).run s with
  | ok u t => exact (wp_of_ok hrun).mp hspec
  | error e t => exact ((wp_of_error hrun).mp hspec).of_unused ⟨rfl, rfl⟩

variable (A sink) in
/-- **A call of the compressor**, which may go on after a failure. -/
theorem run_inUse (d : Drive κ) {s : Owning EnvelopeWriter (World (σ × List Encryption))}
    (h : InUse key nonce s) : InUse key nonce (d.run (Traced.write A sink) s).2.2 := by
  induction d generalizing s with
  | ret ok k => exact h
  | write slice next ih =>
    rw [Drive.run]
    exact ih _ (write_inUse slice s h)

variable (A sha256 sink) in
theorem finishEnvelope_numbered {s : Owning EnvelopeWriter (World (σ × List Encryption))}
    (h : InUse key nonce s) : wp (Traced.finishEnvelope A sha256 sink) s
      (fun _ t => Numbered key nonce t.world.encryptions)
      fun _ t => Numbered key nonce t.world.encryptions := by
  simp only [Traced.finishEnvelope, wp_bind, wp_getSelf, wp_modifySelf, wp_pure]
  refine wp_orThrow (fun encryptor hencryptor => ?_) fun _ => h.numbered
  refine wp_orThrow (fun ct _ => ?_) fun _ => h.numbered
  obtain rfl := Option.some.inj (h.encryptor.symm.trans hencryptor)
  rw [Traced.note, wp_onWorld, wp_modify]
  have hlast : ∀ e : Encryption, e.key = key → e.nonce = nonce →
      e.position = s.world.encryptions.length →
      Numbered key nonce (s.world.encryptions ++ [e]) := fun e => h.numbered.append h.last
  refine wp_mono (writeEncryptedBlock_unused ct _) (fun _ t ht => ?_) fun _ t ht => ?_
  · rw [ht.2]
    exact hlast _ rfl rfl rfl
  · rw [ht.2]
    exact hlast _ rfl rfl rfl

end envelope

/-! ## The object writer -/

section object

variable {A : StreamAead} {C : Compressor κ} {sha256 : Bytes → Bytes} {sink : BackupByteSink σ}
  {key nonce : Bytes}

def WriterCall.Ends : WriterCall → Prop
  | .writePlaintext _ => False
  | .finish => True
  | .abort => True

/-- **The typestate**, with the encryptions of the writer so far. -/
structure Disciplined (key nonce : Bytes)
    (s : Owning (BackupObjectWriterV1 κ) (World (σ × List Encryption))) : Prop where
  typestate : s.self.active.isSome ↔ s.self.terminal = .active
  numbered : Numbered key nonce s.world.encryptions
  inUse : ∀ active, s.self.active = some active → InUse key nonce ⟨active.envelope, s.world⟩

def Over (s : Owning (BackupObjectWriterV1 κ) (World (σ × List Encryption))) : Prop :=
  s.self.terminal ≠ .active

theorem disciplined_over {terminal : WriterTerminal} {w : World (σ × List Encryption)}
    (hterminal : terminal ≠ .active) (h : Numbered key nonce w.encryptions) :
    Disciplined key nonce
        ⟨({ active := none, terminal := terminal } : BackupObjectWriterV1 κ), w⟩ ∧
      Over ⟨({ active := none, terminal := terminal } : BackupObjectWriterV1 κ), w⟩ := by
  refine ⟨⟨?_, h, ?_⟩, hterminal⟩
  · exact iff_of_false (fun h => by cases h) hterminal
  · intro active h
    cases h

theorem fail_disciplined {α : Type} {Q : α → Owning (BackupObjectWriterV1 κ) _ → Prop}
    (e : BackupErrorCode) {s : Owning (BackupObjectWriterV1 κ) (World (σ × List Encryption))}
    (h : Numbered key nonce s.world.encryptions) : wp (BackupObjectWriterV1.fail e) s Q
      fun _ s' => Disciplined key nonce s' ∧ Over s' := by
  rw [BackupObjectWriterV1.fail, wp_bind, wp_modifySelf]
  exact disciplined_over (by decide) h

theorem Disciplined.not_none {s : Owning (BackupObjectWriterV1 κ) (World (σ × List Encryption))}
    (h : Disciplined key nonce s) (hactive : ¬ s.self.terminal ≠ .active) :
    s.self.active ≠ none := by
  intro hnone
  have := h.typestate.mpr (not_not.mp hactive)
  rw [hnone] at this
  cases this

theorem writePlaintext_disciplined (bytes : Bytes)
    {s : Owning (BackupObjectWriterV1 κ) (World (σ × List Encryption))}
    (h : Disciplined key nonce s) : wp (Traced.writePlaintext A C sink bytes) s
      (fun _ s' => Disciplined key nonce s') fun _ s' => Disciplined key nonce s' ∧ Over s' := by
  rw [Traced.writePlaintext, wp_bind, wp_getSelf]
  refine wp_ite (fun hover => ⟨h, hover⟩) fun hactive => ?_
  rw [wp_bind]
  refine wp_orThrow (fun active hsome => ?_) fun hnone => absurd hnone (h.not_none hactive)
  split
  · exact fail_disciplined _ h.numbered
  rename_i total htotal
  rw [wp_bind, wp_get, wp_bind, wp_onWorld, wp_set]
  have hrun := run_inUse A sink (C.writeAll active.encoder bytes) (h.inUse active hsome)
  refine wp_ite (fun _ => ?_) fun _ => fail_disciplined _ hrun.numbered
  rw [wp_modifySelf]
  refine ⟨⟨fun _ => not_not.mp hactive, fun _ => rfl⟩, hrun.numbered, ?_⟩
  rintro _ ⟨⟩
  exact hrun

theorem finish_disciplined {s : Owning (BackupObjectWriterV1 κ) (World (σ × List Encryption))}
    (h : Disciplined key nonce s) : wp (Traced.finish A C sha256 sink) s
      (fun _ s' => Disciplined key nonce s' ∧ Over s')
      fun _ s' => Disciplined key nonce s' ∧ Over s' := by
  rw [Traced.finish, wp_bind, wp_getSelf]
  refine wp_ite (fun hover => ⟨h, hover⟩) fun hactive => ?_
  rw [wp_bind]
  refine wp_orThrow (fun active hsome => ?_) fun hnone => absurd hnone (h.not_none hactive)
  rw [wp_bind, wp_get, wp_bind, wp_onWorld, wp_set]
  have hrun := run_inUse A sink (C.tryFinish active.encoder) (h.inUse active hsome)
  have hlast := finishEnvelope_numbered A sha256 sink hrun
  refine wp_ite (fun _ => ?_) fun _ => fail_disciplined _ hrun.numbered
  split
  · rename_i descriptor t hfinish
    rw [wp_bind, wp_onWorld, wp_set, wp_bind, wp_modifySelf]
    exact disciplined_over (by decide) ((wp_of_ok hfinish).mp hlast)
  · rename_i e t hfinish
    rw [wp_bind, wp_onWorld, wp_set]
    exact fail_disciplined _ ((wp_of_error hfinish).mp hlast)

/-- **One call**: the typestate is kept, and after the end or an error the writer is over. -/
theorem call_disciplined (next : WriterCall)
    {s : Owning (BackupObjectWriterV1 κ) (World (σ × List Encryption))}
    (h : Disciplined key nonce s) : wp (Traced.call A C sha256 sink next) s
      (fun r s' => Disciplined key nonce s' ∧ (next.Ends ∨ r.isSome → Over s'))
      fun _ s' => Disciplined key nonce s' ∧ Over s' := by
  cases next with
  | writePlaintext bytes =>
    rw [Traced.call, wp_bind]
    refine wp_mono (writePlaintext_disciplined bytes h) (fun _ s' hs' => ⟨hs', ?_⟩) fun _ _ h => h
    rintro (hends | hsome)
    · exact hends.elim
    · cases hsome
  | finish =>
    rw [Traced.call, map_eq_pure_bind, wp_bind]
    exact wp_mono (finish_disciplined h) (fun _ _ hs' => ⟨hs'.1, fun _ => hs'.2⟩) fun _ _ h => h
  | abort =>
    rw [Traced.call, wp_bind, BackupObjectWriterV1.abort, wp_bind, wp_getSelf]
    refine wp_ite (fun hover => ⟨h, hover⟩) fun hactive => ?_
    have hne : WriterTerminal.aborted ≠ .active := by decide
    exact ⟨(disciplined_over hne h.numbered).1, fun _ => hne⟩

/-- **A writer that is over** refuses every call and touches nothing. -/
theorem call_over (next : WriterCall)
    {s : Owning (BackupObjectWriterV1 κ) (World (σ × List Encryption))} (h : Over s) :
    (Traced.call A C sha256 sink next).run s = .error .invalidState s := by
  have hrefuse : ∀ {α : Type} (x : BackupObjectWriterV1 κ →
      Method (BackupObjectWriterV1 κ) (σ × List Encryption) α),
      wp (getSelf >>= fun self => if self.terminal ≠ .active then throw .invalidState else x self) s
        (fun _ _ => False) fun e s' => e = .invalidState ∧ s' = s := by
    intro α x
    have hover : s.self.terminal ≠ .active := h
    rw [wp_bind, wp_getSelf, if_pos hover]
    exact ⟨rfl, rfl⟩
  apply run_error_of_wp
  cases next with
  | writePlaintext bytes =>
    rw [Traced.call, wp_bind]
    exact wp_mono (hrefuse _) (fun _ _ h => h.elim) fun _ _ h => h
  | finish =>
    rw [Traced.call, map_eq_pure_bind, wp_bind]
    exact wp_mono (hrefuse _) (fun _ _ h => h.elim) fun _ _ h => h
  | abort =>
    rw [Traced.call, wp_bind]
    exact wp_mono (hrefuse _) (fun _ _ h => h.elim) fun _ _ h => h

theorem callAll_over (calls : List WriterCall)
    {s : Owning (BackupObjectWriterV1 κ) (World (σ × List Encryption))} (h : Over s) :
    (Traced.callAll A C sha256 sink calls).run s =
      .ok (calls.map fun _ => .error .invalidState) s := by
  induction calls with
  | nil => rfl
  | cons next calls ih =>
    have hnext : (attempt (Traced.call A C sha256 sink next)).run s =
        .ok (.error .invalidState) s := by
      change attempt _ s = _
      rw [attempt, call_over next h]
    rw [Traced.callAll, run_bind_ok hnext, run_bind_ok ih]
    rfl

def isDescriptor : Except BackupErrorCode (Option BackupObjectDescriptor) → Bool
  | .ok (some _) => true
  | _ => false

theorem filter_refused (calls : List WriterCall) :
    (calls.map fun _ => (.error .invalidState : Except _ _)).filter isDescriptor = [] := by
  rw [List.filter_eq_nil_iff]
  intro r hr
  obtain ⟨_, -, rfl⟩ := List.mem_map.mp hr
  decide

variable (A sha256) in
/-- **Any calls in a row**: the state stays disciplined, and there is one descriptor at most. -/
theorem callAll_disciplined (calls : List WriterCall)
    {s : Owning (BackupObjectWriterV1 κ) (World (σ × List Encryption))}
    (h : Disciplined key nonce s) : wp (Traced.callAll A C sha256 sink calls) s
      (fun results s' => Disciplined key nonce s' ∧ (results.filter isDescriptor).length ≤ 1)
      fun _ _ => False := by
  induction calls generalizing s with
  | nil => exact ⟨h, Nat.zero_le 1⟩
  | cons next calls ih =>
    rw [Traced.callAll, wp_bind, wp_attempt]
    -- the rest of the calls behind a writer that is over
    have hrest : ∀ {r} {s' : Owning (BackupObjectWriterV1 κ) (World (σ × List Encryption))},
        Disciplined key nonce s' → Over s' →
        wp (do return r :: (← Traced.callAll A C sha256 sink calls)) s'
          (fun results s' => Disciplined key nonce s' ∧ (results.filter isDescriptor).length ≤ 1)
          fun _ _ => False := by
      intro r s' hs' hover
      rw [wp_bind, wp_of_ok (callAll_over calls hover), wp_pure]
      refine ⟨hs', ?_⟩
      rw [List.filter_cons, filter_refused]
      split <;> simp
    refine wp_mono (call_disciplined next h) (fun r s' hs' => ?_) fun e s' hs' => ?_
    · cases r with
      | some descriptor => exact hrest hs'.1 (hs'.2 (.inr rfl))
      | none =>
        rw [wp_bind]
        refine wp_mono (ih hs'.1) (fun results t ht => ⟨ht.1, ?_⟩) fun _ _ h => h
        rw [List.filter_cons_of_neg (by decide)]
        exact ht.2
    · exact hrest hs'.1 hs'.2

variable (A C sha256 sink) in
def performAll (sink : BackupByteSink σ) : List WriterCall → Method (BackupObjectWriterV1 κ) σ
    (List (Except BackupErrorCode (Option BackupObjectDescriptor)))
  | [] => return []
  | next :: calls => do
    let result ← attempt (next.perform A C sha256 sink)
    return result :: (← performAll sink calls)

theorem callAll_erases (calls : List WriterCall) :
    Erases (Traced.callAll A C sha256 sink calls) (performAll A C sha256 sink calls) := by
  induction calls with
  | nil => exact Sim.pure _
  | cons next calls ih =>
    unfold Traced.callAll performAll
    refine Sim.bind (Sim.attempt (call_erases next)) fun result => ?_
    exact Sim.bind ih fun results => Sim.pure _

theorem new_disciplined {context : BackupObjectContextV1} {random : Option NoncePrefix}
    {w : World (σ × List Encryption)} (h : w.encryptions = []) :
    wp (BackupObjectWriterV1.new C sink.traced context random) w
      (fun writer w' => ∃ noncePrefix, random = some noncePrefix ∧
        Disciplined context.objectKey noncePrefix ⟨writer, w'⟩) fun _ _ => True := by
  rw [BackupObjectWriterV1.new, wp_bind]
  refine wp_orThrow (fun noncePrefix hrandom => ?_) fun _ => trivial
  rw [wp_bind]
  simp only [EnvelopeWriter.new, wp_bind, wp_withSelf, wp_pure]
  refine wp_mono (writeEnvelopeBytes_unused _ _) (fun _ t ht => ?_) fun _ _ _ => trivial
  have hinUse : InUse context.objectKey noncePrefix t := by
    constructor
    · rw [ht.2, h]
      exact .nil
    · rw [ht.2, h]
      simp
    · rw [ht.1, ht.2, h]
      rfl
  refine wp_orThrow (fun encoder _ => ?_) fun _ => trivial
  refine ⟨noncePrefix, hrandom, ⟨fun _ => rfl, fun _ => rfl⟩, hinUse.numbered, ?_⟩
  rintro _ ⟨⟩
  exact hinUse

end object

/-- **Typestate and nonces** of a new writer, whatever compressor and sink do, after any calls: the
writer is there exactly while it is active; one descriptor at most was returned; no counter was
used twice and no last block encrypted twice. After the end or an error every call is refused, and
nothing is passed to the sink. -/
theorem writer_disciplined (A : StreamAead) (C : Compressor κ) (sha256 : Bytes → Bytes)
    (sink : BackupByteSink σ) (context : BackupObjectContextV1) (random : Option NoncePrefix)
    (w w' : World (σ × List Encryption)) (writer : BackupObjectWriterV1 κ)
    (hw : w.encryptions = [])
    (hnew : (BackupObjectWriterV1.new C sink.traced context random).run w = .ok writer w')
    (calls : List WriterCall) :
    ∃ results s, (Traced.callAll A C sha256 sink calls).run ⟨writer, w'⟩ = .ok results s ∧
      (performAll A C sha256 sink calls).run (erase ⟨writer, w'⟩) = .ok results (erase s) ∧
      (s.self.active.isSome ↔ s.self.terminal = .active) ∧
      (results.filter isDescriptor).length ≤ 1 ∧
      (s.world.encryptions.map Encryption.position).Nodup ∧
      (s.world.encryptions.filter Encryption.last).length ≤ 1 ∧
      (s.world.encryptions.map Encryption.streamNonce).Nodup ∧
      ∀ next r s', (attempt (Traced.call A C sha256 sink next)).run s = .ok r s' →
        next.Ends ∨ r.isOk = false → ∀ after, (Traced.callAll A C sha256 sink after).run s' =
          .ok (after.map fun _ => .error .invalidState) s' := by
  obtain ⟨noncePrefix, -, hs⟩ := (wp_of_ok hnew).mp (new_disciplined hw)
  obtain ⟨results, s, hrun, hs, hone⟩ :=
    exists_run_of_wp (callAll_disciplined A sha256 calls hs)
  refine ⟨results, s, hrun, ?_, hs.typestate, hone, hs.numbered.position_nodup,
    hs.numbered.last_once, hs.numbered.streamNonce_nodup, fun next r s' hnext hend after => ?_⟩
  · have herases : Agree _ _ ((Traced.callAll A C sha256 sink calls).run ⟨writer, w'⟩)
        ((performAll A C sha256 sink calls).run (erase ⟨writer, w'⟩)) :=
      callAll_erases calls ⟨writer, w'⟩ _ rfl
    rw [hrun] at herases
    generalize (performAll A C sha256 sink calls).run (erase ⟨writer, w'⟩) = r' at herases ⊢
    cases herases with
    | ok h => rw [h]
  · have hspec : wp (attempt (Traced.call A C sha256 sink next)) s
        (fun r s' => next.Ends ∨ r.isOk = false → Over s') fun _ _ => True := by
      rw [wp_attempt]
      refine wp_mono (call_disciplined next hs) (fun _ s' hs' hend => ?_) fun _ s' hs' _ => hs'.2
      rcases hend with hend | hend
      · exact hs'.2 (.inl hend)
      · cases hend
    exact callAll_over after ((wp_of_ok hnext).mp hspec hend)

/-- The sink takes the header and the length of the only frame. -/
theorem writer_disciplined_full :
    let w : World (ℕ × List Encryption) := { foreign := (2, []), delivered := [] }
    ∃ writer w' results s,
      (BackupObjectWriterV1.new storedCompressor fullSink.traced default (some default)).run w =
        .ok writer w' ∧
      (Traced.callAll flagAead storedCompressor id fullSink
        [.writePlaintext [7, 8, 9], .finish, .finish, .abort]).run ⟨writer, w'⟩ = .ok results s ∧
      (results.filter isDescriptor).length ≤ 1 ∧
      (s.world.encryptions.map Encryption.streamNonce).Nodup := by
  obtain ⟨results, s, hrun, -, -, hone, -, -, hnodup, -⟩ := writer_disciplined flagAead
    storedCompressor id fullSink default (some default) { foreign := (2, []), delivered := [] } _ _
    rfl rfl [.writePlaintext [7, 8, 9], .finish, .finish, .abort]
  exact ⟨_, _, results, s, rfl, hrun, hone, hnodup⟩

end KChat.Backup
