import KChat.Backup.RoundTrip
import KChat.Backup.Unfinished

/-!
# Writing piece by piece

* `useWriter_over`: a writer that is finished, aborted or has failed gives no descriptor any more.
* `writePlaintext_over`, `finish_over`: a call that fails ends a writer in use.
* `useWriter_sealed`: the calls that led to a descriptor are writes up to the first `finish`.
* **`open_of_writes`**: an object that was written piece by piece opens to the pieces.
-/

namespace KChat.Backup

open Lib BoundedDecoder

variable {σ δ κ : Type} {A : StreamAead} {C : Compressor κ} {sink : BackupByteSink σ}
  {sha256 : Bytes → Bytes} {context : BackupObjectContextV1}

/-! ## A writer that is not in use any more -/

def BackupObjectWriterV1.Over (writer : BackupObjectWriterV1 κ) : Prop := writer.terminal ≠ .active

theorem useWriter_over (calls : List WriterCall)
    {s : Owning (BackupObjectWriterV1 κ) (World σ)} (h : s.self.Over) :
    wp (useWriter A C sink sha256 calls) s (fun descriptor _ => descriptor = none)
      fun _ _ => False := by
  induction calls generalizing s with
  | nil => exact rfl
  | cons call calls ih =>
    cases call with
    | writePlaintext bytes =>
      rw [useWriter, wp_bind, wp_attempt, BackupObjectWriterV1.writePlaintext, wp_bind, wp_getSelf]
      exact wp_ite (fun _ => ih h) fun hactive => absurd h hactive
    | abort =>
      rw [useWriter, wp_bind, wp_attempt, BackupObjectWriterV1.abort, wp_bind, wp_getSelf]
      exact wp_ite (fun _ => ih h) fun hactive => absurd h hactive
    | finish =>
      rw [useWriter, wp_bind, wp_attempt, BackupObjectWriterV1.finish, wp_bind, wp_getSelf]
      exact wp_ite (fun _ => ih h) fun hactive => absurd h hactive

variable (A C sink) in
/-- **A write that fails ends the writer.** -/
theorem writePlaintext_over (bytes : Bytes) {s : Owning (BackupObjectWriterV1 κ) (World σ)}
    (h : s.self.active.isSome) : wp (BackupObjectWriterV1.writePlaintext A C sink bytes) s
      (fun _ _ => True) fun _ s' => s'.self.Over := by
  rw [BackupObjectWriterV1.writePlaintext, wp_bind, wp_getSelf]
  refine wp_ite (fun hover => hover) fun _ => ?_
  rw [wp_bind]
  refine wp_orThrow (fun active _ => ?_) fun hnone => ?_
  · split
    · exact fun hfailed => by cases hfailed
    rw [wp_bind, wp_get, wp_bind, wp_onWorld, wp_set]
    exact wp_ite (fun _ => trivial) fun _ hfailed => by cases hfailed
  · rw [hnone] at h
    cases h

variable (A C sink sha256) in
theorem finish_over {s : Owning (BackupObjectWriterV1 κ) (World σ)} (h : s.self.active.isSome) :
    wp (BackupObjectWriterV1.finish A C sha256 sink) s (fun _ _ => True)
      fun _ s' => s'.self.Over := by
  rw [BackupObjectWriterV1.finish, wp_bind, wp_getSelf]
  refine wp_ite (fun hover => hover) fun _ => ?_
  rw [wp_bind]
  refine wp_orThrow (fun active _ => ?_) fun hnone => ?_
  · rw [wp_bind, wp_get, wp_bind, wp_onWorld, wp_set]
    refine wp_ite (fun _ => ?_) fun _ hfailed => by cases hfailed
    split
    · trivial
    · exact fun hfailed => by cases hfailed
  · rw [hnone] at h
    cases h

/-! ## The calls that led to a descriptor -/

section sealed

variable {noncePrefix : NoncePrefix} {delivered : List Bytes} {k : κ}
  {frame : Bytes → Option Bytes} {windowLog : ℕ}

theorem Writing.isSome {J : σ → Prop} {pieces : List Bytes} {writer : BackupObjectWriterV1 κ}
    {w : World σ} (h : Writing A C context noncePrefix J delivered k pieces writer w) :
    writer.active.isSome := by
  obtain ⟨active, -, hactive, -⟩ := h.active
  rw [hactive]
  rfl

/-- **The calls up to a descriptor**; the induction is on the calls, and a call that fails leaves
no way back. -/
theorem useWriter_sealed (hC : C.Encodes frame BackupObjectWriterV1.level windowLog)
    (hk : C.new BackupObjectWriterV1.level = some k) (calls : List WriterCall)
    {pieces : List Bytes} {writer : BackupObjectWriterV1 κ} {w : World σ}
    (h : Writing A C context noncePrefix (fun _ => True) delivered k pieces writer w) :
    wp (useWriter A C sink sha256 calls) ⟨writer, w⟩
      (fun descriptor s => ∀ d, descriptor = some d → ∃ plaintexts rest c out,
        calls = plaintexts.map .writePlaintext ++ .finish :: rest ∧
        SealedWith A C context noncePrefix c (pieces ++ plaintexts).flatten out.flatten ∧
        s.world.delivered = delivered ++ out ∧ d.ciphertextSize = out.flatten.length ∧
        d.ciphertextSha256 = sha256 out.flatten)
      fun _ _ => False := by
  have hharmless : Harmless (fun _ => True) sink := fun _ _ _ => wp_true _ _
  have hover : ∀ calls {s : Owning (BackupObjectWriterV1 κ) (World σ)} {P : _ → _ → Prop},
      s.self.Over → wp (useWriter A C sink sha256 calls) s
        (fun descriptor s => ∀ d, descriptor = some d → P d s) fun _ _ => False :=
    fun calls _ _ hs => wp_mono (useWriter_over calls hs) (fun _ _ hnone d hd => by
      rw [hnone] at hd
      cases hd) fun _ _ h => h
  induction calls generalizing pieces writer w with
  | nil => exact fun d hd => by cases hd
  | cons call calls ih =>
    cases call with
    | writePlaintext bytes =>
      rw [useWriter, wp_bind, wp_attempt]
      have hwrite := wp_and (writePlaintext_writing hC hharmless h bytes)
        (writePlaintext_over A C sink bytes (s := ⟨writer, w⟩) h.isSome)
      refine wp_mono hwrite (fun _ s hs => ?_) fun _ s hs => hover calls hs.2
      refine wp_mono (ih hs.1) (fun descriptor s' hs' d hd => ?_) fun _ _ h => h
      obtain ⟨plaintexts, rest, c, out, rfl, hsealed, hrest⟩ := hs' d hd
      rw [List.append_assoc] at hsealed
      exact ⟨bytes :: plaintexts, rest, c, out, rfl, hsealed, hrest⟩
    | abort =>
      rw [useWriter, wp_bind, wp_attempt, BackupObjectWriterV1.abort, wp_bind, wp_getSelf]
      refine wp_ite (fun hbad => absurd h.terminal hbad) fun _ => hover calls ?_
      exact fun haborted => by cases haborted
    | finish =>
      rw [useWriter, wp_bind, wp_attempt]
      have hfinish := wp_and (finish_sealed hC hharmless sha256 hk h)
        (finish_over A C sink sha256 (s := ⟨writer, w⟩) h.isSome)
      refine wp_mono hfinish (fun descriptor s hs d hd => ?_) fun _ s hs => hover calls hs.2
      obtain ⟨c, out, hsealed, hrest⟩ := hs.1
      obtain rfl : descriptor = d := Option.some.inj hd
      rw [← List.append_nil pieces] at hsealed
      exact ⟨[], calls, c, out, rfl, hsealed, hrest⟩

end sealed

/-! ## The round trip -/

/-- **Write, then open**: when a use of a new writer gives a descriptor, its calls are writes up to
a `finish`, the descriptor is the size and the hash of what the sink was given, and that opens to
what was written, however the pieces were cut and whatever the sink answered to a call. -/
theorem open_of_writes (A : StreamAead) (hA : A.Inverts) (C : Compressor κ) (R : RawDecoder δ)
    (frame : Bytes → Option Bytes) (hC : C.Encodes frame BackupObjectWriterV1.level windowLogMax)
    (hsound : R.Sound frame windowLogMax) (hlive : R.Live frame windowLogMax)
    (hdelim : SelfDelimiting frame) (sha256 : Bytes → Bytes) (context : BackupObjectContextV1)
    (random : Option NoncePrefix) (sink : BackupByteSink σ) (calls : List WriterCall) {s : σ}
    {descriptor : BackupObjectDescriptor} {w : World σ}
    (hwrite : (useNewWriter A C sink sha256 context random calls).run
      { foreign := s, delivered := [] } = .ok (some descriptor) w) :
    ∃ (plaintexts : List Bytes) (rest : List WriterCall),
      calls = plaintexts.map .writePlaintext ++ .finish :: rest ∧
      descriptor.ciphertextSize = w.bytes.length ∧ descriptor.ciphertextSha256 = sha256 w.bytes ∧
      ∀ (τ : Type) (source' : BackupByteSource τ) (sink' : BackupByteSink τ)
        (Rest : τ → Bytes → Prop) (t : τ), Honest source' sink' Rest → NeverFails sink' →
        Rest t w.bytes →
        ∃ w', (openObjectV1 A R source' sink' context).run { foreign := t, delivered := [] } =
          .ok () w' ∧ w'.bytes = plaintexts.flatten := by
  have hrun : wp (useNewWriter A C sink sha256 context random calls)
      { foreign := s, delivered := [] } (fun descriptor w' => ∀ d, descriptor = some d →
        ∃ (noncePrefix : NoncePrefix) (plaintexts : List Bytes) (rest : List WriterCall) (c : Bytes)
          (out : List Bytes),
          calls = plaintexts.map .writePlaintext ++ .finish :: rest ∧
          SealedWith A C context noncePrefix c plaintexts.flatten out.flatten ∧
          w'.delivered = out ∧ d.ciphertextSize = out.flatten.length ∧
          d.ciphertextSha256 = sha256 out.flatten) fun _ _ => True := by
    rw [useNewWriter, wp_bind]
    refine wp_mono (new_writing A (J := fun _ => True) (fun _ _ _ => wp_true _ _) random trivial)
      (fun writer w₁ h₁ => ?_) fun _ _ _ => trivial
    obtain ⟨noncePrefix, k, -, hk, hwriting⟩ := h₁
    rw [wp_bind, wp_withSelf]
    refine wp_mono (useWriter_sealed hC hk calls hwriting) (fun _ _ h₂ d hd => ?_)
      fun _ _ h => h.elim
    obtain ⟨plaintexts, rest, c, out, hcalls, hsealed, hout, hd'⟩ := h₂ d hd
    exact ⟨noncePrefix, plaintexts, rest, c, out, hcalls, hsealed, hout, hd'⟩
  obtain ⟨noncePrefix, plaintexts, rest, c, out, hcalls, hsealed, hout, hsize, hsha⟩ :=
    (wp_of_ok hwrite).mp hrun descriptor rfl
  have hbytes : w.bytes = out.flatten := by rw [World.bytes, hout]
  rw [← hbytes] at hsize hsha hsealed
  refine ⟨plaintexts, rest, hcalls, hsize, hsha, ?_⟩
  intro τ source' sink' Rest t honest hsink' hR
  have hgram := sealedWith_grammar hA hC hsealed
  have hspec := openObjectV1_spec A context hsound hdelim hlive honest hsink'
    (w := { foreign := t, delivered := [] }) hR
  obtain ⟨u, w', hopen, p, hgram', hp⟩ := exists_run_of_wp
    (wp_mono hspec (fun _ _ h => h) fun _ _ h => absurd ⟨_, hgram⟩ h)
  refine ⟨w', hopen, ?_⟩
  rw [hp, V1Grammar.unique hgram' hgram]
  rfl

/-- Two pieces, a `finish`, and a write behind it that comes too late. -/
theorem open_of_writes_two : ∃ descriptor w w',
    (useNewWriter (taggedAead fun _ _ _ _ => true) storedCompressor memorySink
      (fun _ => List.replicate 32 0) default (some default)
      [.writePlaintext [7, 8], .writePlaintext [9], .finish, .writePlaintext [1]]).run
        { foreign := [], delivered := [] } = .ok (some descriptor) w ∧
    (openObjectV1 (taggedAead fun _ _ _ _ => true) storedDecoder (memorySource 1) memorySink
      default).run { foreign := w.bytes, delivered := [] } = .ok () w' ∧ w'.bytes = [7, 8, 9] := by
  have hok : (outcome ((useNewWriter (taggedAead fun _ _ _ _ => true) storedCompressor memorySink
      (fun _ => List.replicate 32 0) default (some default)
      [.writePlaintext [7, 8], .writePlaintext [9], .finish, .writePlaintext [1]]).run
        { foreign := [], delivered := [] })).toOption.join.isSome = true := by decide +kernel
  obtain ⟨descriptor, hdescriptor⟩ := Option.isSome_iff_exists.mp hok
  generalize hrun : (useNewWriter (taggedAead fun _ _ _ _ => true) storedCompressor memorySink
      (fun _ => List.replicate 32 0) default (some default)
      [.writePlaintext [7, 8], .writePlaintext [9], .finish, .writePlaintext [1]]).run
        { foreign := [], delivered := [] } = r at hdescriptor
  cases r with
  | error e w => cases hdescriptor
  | ok d w =>
    obtain rfl : d = some descriptor := hdescriptor
    obtain ⟨plaintexts, rest, hcalls, -, -, hopens⟩ := open_of_writes _ (taggedAead_inverts _)
      storedCompressor storedDecoder storedFrame (storedCompressor_encodes _ (by decide +kernel))
      (storedDecoder_sound _) (storedDecoder_live _) storedFrame_selfDelimiting _ default _
      memorySink _ hrun
    obtain ⟨w', hopen, hbytes⟩ := hopens Bytes (memorySource 1) memorySink Eq w.bytes
      (memory_honest one_pos) memorySink_neverFails rfl
    refine ⟨descriptor, w, w', rfl, hopen, hbytes.trans ?_⟩
    cases plaintexts with
    | nil => cases hcalls
    | cons p₁ ps =>
      cases ps with
      | nil => cases hcalls
      | cons p₂ ps =>
        cases ps with
        | nil =>
          cases hcalls
          rfl
        | cons p₃ ps => cases hcalls

end KChat.Backup
