import KChat.Backup.Authentic
import KChat.Backup.Chunking
import KChat.Backup.ThreadProtocol
import KChat.Backup.WriterSteps

/-!
# What the promise of a task says

* `Working`: what holds between two calls of the adapters; `waitForCallback_spec`,
  `callAndWait_spec`: a call, from the queue to its answer.
* `Delivering`, `Interrupted`: what the function of the sink has been called with.
* `openObjectV1_last`, `sealObjectV1_last`: opening ends with a look, sealing with a write.
* `callsAfterCancel`: after it is cancelled the worker calls a function at most once.
* **`openBackupObjectV1_threads`**, **`sealBackupObjectV1_threads`**: a task as a whole.
* **`openBackupObjectV1_passes`**: the sink is called with nothing but what was sealed.
-/

namespace KChat.Backup.Napi

open Lib

variable {t t' : Threads} {js : Javascript} {patience : ℕ}

/-! ## A call, from the queue to its answer -/

theorem Sound.hang (h : Sound t) : Sound { t with hung := true } :=
  ⟨h.proper, h.cancelled, h.aborted, h.calls, h.known, h.events, h.ended⟩

/-- The worker has waited in vain, and does not have the answer. -/
def WaitsFor (patience : ℕ) (log : List ThreadEvent) (call : ℕ) : Prop :=
  (∃ callback, .called call callback ∈ log) ∧ ¬Over log call ∧ patience ≤ waits call log

/-- **What holds between two calls of the adapters.** -/
structure Working (patience : ℕ) (t : Threads) : Prop where
  sound : Sound t
  idle : t.hung = false → Idle t.log
  waiting : t.hung = true → ∃ call, WaitsFor patience t.log call

theorem working_new (patience : ℕ) : Working patience .new where
  sound := sound_new
  idle _ := .inr fun _ _ hmem => absurd hmem List.not_mem_nil
  waiting h := by cases h

/-- **The loop that waits.** It ends with the answer to the call, or with an error after which the
worker is not called on again, or it waits for ever. -/
theorem waitForCallback_spec (h : Sound t) (hhung : t.hung = false) {call : ℕ}
    {callback : JsCallback} (hcall : .called call callback ∈ t.log) (hover : ¬Over t.log call)
    (hready : ReadyBut t.log call) : wp (waitForCallback js call callback patience) t
      (fun data t' => Sound t' ∧ t'.hung = false ∧ Ready t'.log ∧
        Grown ThreadEvent.NoCall t.log t'.log ∧ .received call (.ok data) ∈ t'.log)
      fun _ t' => Sound t' ∧ Grown ThreadEvent.NoCall t.log t'.log ∧
        (t'.hung = false → Idle t'.log) ∧
        (t'.hung = true → ¬Over t'.log call ∧
          waits call t.log + patience ≤ waits call t'.log) := by
  induction patience generalizing t with
  | zero => exact ⟨h.hang, Grown.refl _, fun hno => (by cases hno), fun _ => ⟨hover, le_rfl⟩⟩
  | succ patience ih =>
    have hnotHung : ∀ {t' : Threads} {p : Prop}, t'.hung = false → t'.hung = true → p :=
      fun hno hyes => (by cases hno.symm.trans hyes)
    -- all calls are settled once this one is
    have hall : ∀ {log}, Grown ThreadEvent.NoCall t.log log →
        Settled log call callback → Ready log := by
      intro log hgrown hsettled
      refine (hready.mono hgrown).ready fun callback' hmem => ?_
      rwa [h.callback_eq hcall (hgrown.mem_of_not hmem id)]
    rw [waitForCallback, wp_bind]
    refine wp_mono (lookCancelled_spec js h) (fun answer t₁ h₁ => ?_) fun _ _ h => h.elim
    obtain ⟨h₁, hyes, -⟩ := h₁
    have hgrown₁ := h₁.grown.mono fun _ h => h.noCall
    have hhung₁ := h₁.hung.trans hhung
    refine wp_ite (fun hanswer => ?_) fun _ => ?_
    · exact ⟨h₁.sound, hgrown₁, fun _ => .inl (hyes hanswer), hnotHung hhung₁⟩
    rw [wp_bind]
    refine wp_mono (lookClosed_spec js h₁.sound (hgrown₁.subset hcall)) (fun answer t₂ h₂ => ?_)
      fun _ _ h => h.elim
    obtain ⟨h₂, hclosed⟩ := h₂
    have hgrown₂ := hgrown₁.trans (h₂.grown.mono fun _ h => h.noCall)
    have hhung₂ := h₂.hung.trans hhung₁
    have hover₂ : ¬Over t₂.log call := by
      rw [h₂.grown.over_iff, h₁.grown.over_iff]
      exact hover
    refine wp_ite (fun hanswer => ?_) fun _ => ?_
    · exact ⟨h₂.sound, hgrown₂, fun _ => .inr (hall hgrown₂ (.inr (hclosed hanswer))),
        hnotHung hhung₂⟩
    rw [wp_bind]
    refine wp_mono (receive_spec js h₂.sound (hgrown₂.subset hcall) hover₂) (fun reply t₃ h₃ => ?_)
      fun _ _ h => h.elim
    obtain ⟨h₃, hsays⟩ := h₃
    have hgrown₃ := hgrown₂.trans h₃.grown
    have hhung₃ := h₃.hung.trans hhung₂
    cases reply with
    | answer result =>
      dsimp only
      rw [wp_bind]
      refine wp_mono (lookCancelled_spec js h₃.sound) (fun answer t₄ h₄ => ?_) fun _ _ h => h.elim
      obtain ⟨h₄, hyes, -⟩ := h₄
      have hgrown₄ := hgrown₃.trans (h₄.grown.mono fun _ h => h.noCall)
      have hhung₄ := h₄.hung.trans hhung₃
      have hreceived : .received call result ∈ t₄.log := h₄.grown.subset hsays
      have hready₄ := hall hgrown₄ (.inl (.inl ⟨result, hreceived⟩))
      refine wp_ite (fun hanswer => ?_) fun _ => ?_
      · exact ⟨h₄.sound, hgrown₄, fun _ => .inl (hyes hanswer), hnotHung hhung₄⟩
      refine wp_ofResult (fun data hdata => ?_) fun e _ => ?_
      · exact ⟨h₄.sound, hhung₄, hready₄, hgrown₄, hdata ▸ hreceived⟩
      · exact ⟨h₄.sound, hgrown₄, fun _ => .inr hready₄, hnotHung hhung₄⟩
    | timeout =>
      obtain ⟨hover₃, hwaited⟩ := hsays
      dsimp only
      have hrest := ih h₃.sound hhung₃ (hgrown₃.subset hcall) hover₃ (hready.mono hgrown₃)
      refine wp_mono hrest (fun data t' h' => ?_) fun e t' h' => ?_
      · obtain ⟨hsound, hhung', hready', hgrown', hreceived⟩ := h'
        exact ⟨hsound, hhung', hready', hgrown₃.trans hgrown', hreceived⟩
      · obtain ⟨hsound, hgrown', hidle, hwaiting⟩ := h'
        refine ⟨hsound, hgrown₃.trans hgrown', hidle, fun hh => ⟨(hwaiting hh).1, ?_⟩⟩
        have hle := (hwaiting hh).2
        have hle₂ := waits_mono hgrown₂ call
        omega
    | disconnected =>
      exact ⟨h₃.sound, hgrown₃, fun _ => .inr (hall hgrown₃ (.inl (.inr hsays))), hnotHung hhung₃⟩

/-! ### What the sink was called with -/

/-- What a function is called with, if it is that of the sink. -/
def JsCallback.chunks : JsCallback → List Bytes
  | read _ => []
  | write bytes => [bytes]

def ThreadEvent.chunks : ThreadEvent → List Bytes
  | called _ callback => callback.chunks
  | _ => []

def written (log : List ThreadEvent) : List Bytes := log.flatMap ThreadEvent.chunks

/-- Every call was answered as it should be. -/
def Fulfilled (log : List ThreadEvent) : Prop :=
  ∀ call callback, .called call callback ∈ log → ∃ data, .received call (.ok data) ∈ log

theorem written_grown {log log' : List ThreadEvent} (h : Grown ThreadEvent.NoCall log log') :
    written log' = written log := by
  obtain ⟨extra, rfl, hextra⟩ := h
  have hnone : extra.flatMap ThreadEvent.chunks = [] := by
    apply List.flatMap_eq_nil_iff.mpr
    intro event hmem
    have hno := hextra event hmem
    cases event with
    | called call callback => exact hno.elim
    | _ => rfl
  rw [written, List.flatMap_append, hnone, List.append_nil, written]

theorem Fulfilled.grown {log log' : List ThreadEvent} (hf : Fulfilled log)
    (h : Grown ThreadEvent.NoCall log log') : Fulfilled log' := by
  intro call callback hmem
  obtain ⟨data, hdata⟩ := hf call callback (h.mem_of_not hmem id)
  exact ⟨data, h.subset hdata⟩

/-- **A call, from the queue to its answer.** -/
theorem callAndWait_spec (h : Sound t) (hhung : t.hung = false)
    (hlooked : ThreadEvent.LookedLast t.log) (hready : Ready t.log) {callback : JsCallback}
    (hsize : callback.size ≤ maxIoChunkBytesV1) : wp (callAndWait js patience callback) t
      (fun _ t' => Working patience t' ∧ t'.hung = false ∧
        (Fulfilled t.log → Fulfilled t'.log) ∧ written t'.log = written t.log ++ callback.chunks)
      fun _ t' => Working patience t' ∧ written t'.log <+: written t.log ++ callback.chunks := by
  rw [callAndWait, wp_bind]
  refine wp_mono (callFunction_spec js h hlooked hready hsize) (fun call t₁ h₁ => ?_)
    fun _ t' h' => ?_
  · obtain ⟨hsound, hhung₁, hbut, hover, log, hlog, heq⟩ := h₁
    have hgrown := hlog.mono fun _ h => h.quiet.noCall
    have hcall : .called call callback ∈ t₁.log := by
      rw [heq]
      exact List.mem_append_right _ List.mem_cons_self
    have hwritten : written t₁.log = written t.log ++ callback.chunks := by
      rw [heq, written, List.flatMap_append, ← written, written_grown hgrown]
      simp [ThreadEvent.chunks]
    refine wp_mono (waitForCallback_spec hsound (hhung₁.trans hhung) hcall hover hbut)
      (fun data t' h' => ?_) fun _ t' h' => ?_
    · obtain ⟨hsound', hhung', hready', hgrown', hreceived⟩ := h'
      refine ⟨⟨hsound', fun _ => .inr hready', fun hyes => ?_⟩, hhung', fun hf => ?_, ?_⟩
      · cases hhung'.symm.trans hyes
      · intro other callback' hmem
        have hmem₁ := hgrown'.mem_of_not hmem id
        rw [heq] at hmem₁
        rcases List.mem_append.mp hmem₁ with hmem₁ | hmem₁
        · obtain ⟨data', hdata⟩ := hf.grown hgrown other callback' hmem₁
          refine ⟨data', hgrown'.subset ?_⟩
          rw [heq]
          exact List.mem_append_left _ hdata
        · cases List.mem_singleton.mp hmem₁
          exact ⟨data, hreceived⟩
      · rw [written_grown hgrown', hwritten]
    · obtain ⟨hsound', hgrown', hidle, hwaiting⟩ := h'
      refine ⟨⟨hsound', hidle, fun hyes => ⟨call, ⟨callback, hgrown'.subset hcall⟩, ?_⟩⟩, ?_⟩
      · obtain ⟨hover', hle⟩ := hwaiting hyes
        exact ⟨hover', (Nat.le_add_left _ _).trans hle⟩
      · rw [written_grown hgrown']
        exact hwritten ▸ List.prefix_refl _
  · have hgrown := h'.grown.mono fun _ h => h.noCall
    refine ⟨⟨h'.sound, fun _ => .inr (hready.mono hgrown), fun hyes => ?_⟩, ?_⟩
    · cases (h'.hung.trans hhung).symm.trans hyes
    · rw [written_grown hgrown]
      exact List.prefix_append _ _

/-! ## The adapters -/

theorem wp_unlessHung {α : Type} {x : Step α} {Q : α → Threads → Prop}
    {E : BackupErrorCode → Threads → Prop} (h : t.hung = true → E .ioError t)
    (h' : t.hung = false → wp x t Q E) : wp (unlessHung x) t Q E := by
  rw [unlessHung, wp_bind, wp_get]
  refine wp_ite h fun hno => h' ?_
  simpa using hno

theorem looked_ready (h : Working patience t) (hhung : t.hung = false) : wp (lookCancelled js) t
    (fun answer t' => Working patience t' ∧ t'.hung = false ∧
      Grown ThreadEvent.NoCall t.log t'.log ∧
      (answer = false → ThreadEvent.LookedLast t'.log ∧ Ready t'.log)) fun _ _ => False := by
  refine wp_mono (lookCancelled_spec js h.sound) (fun answer t' h' => ?_) fun _ _ h => h
  obtain ⟨h', -, hno⟩ := h'
  have hgrown := h'.grown.mono fun _ h => h.noCall
  have hhung' := h'.hung.trans hhung
  refine ⟨⟨h'.sound, fun _ => ?_, fun hyes => ?_⟩, hhung', hgrown, fun hanswer => ?_⟩
  · exact (h.idle hhung).imp (fun hmem => hgrown.subset hmem) fun hready => hready.mono hgrown
  · cases hhung'.symm.trans hyes
  · obtain ⟨hcancel, hlooked⟩ := hno hanswer
    refine ⟨hlooked, ((h.idle hhung).ready fun hmem => hcancel ?_).mono hgrown⟩
    exact hgrown.subset hmem

theorem readChunk_spec (h : Working patience t) (capacity : ℕ) :
    wp ((SourceAdapter js patience).readChunk capacity) t
      (fun _ t' => Working patience t' ∧ t'.hung = false ∧
        (Fulfilled t.log → Fulfilled t'.log) ∧ written t'.log = written t.log)
      fun _ t' => Working patience t' ∧ written t'.log <+: written t.log := by
  refine wp_unlessHung (fun _ => ⟨h, List.prefix_refl _⟩) fun hhung => ?_
  rw [wp_bind]
  refine wp_mono (looked_ready h hhung) (fun answer t₁ h₁ => ?_) fun _ _ h => h.elim
  obtain ⟨h₁, hhung₁, hgrown, hno⟩ := h₁
  rw [← written_grown hgrown]
  refine wp_ite (fun _ => ⟨h₁, List.prefix_refl _⟩) fun hanswer => ?_
  obtain ⟨hlooked, hready⟩ := hno (by simpa using hanswer)
  have hsize : (JsCallback.read (min capacity maxIoChunkBytesV1)).size ≤ maxIoChunkBytesV1 :=
    min_le_right _ _
  refine wp_mono (callAndWait_spec h₁.sound hhung₁ hlooked hready hsize) (fun _ t' h' => ?_)
    fun _ t' h' => ?_
  · rw [JsCallback.chunks, List.append_nil] at h'
    exact ⟨h'.1, h'.2.1, fun hf => h'.2.2.1 (hf.grown hgrown), h'.2.2.2⟩
  · rwa [JsCallback.chunks, List.append_nil] at h'

theorem writeChunk_spec (h : Working patience t) (bytes : Bytes) :
    wp ((SinkAdapter js patience).writeChunk bytes) t
      (fun _ t' => Working patience t' ∧ t'.hung = false ∧
        (Fulfilled t.log → Fulfilled t'.log) ∧ written t'.log = written t.log ++ [bytes])
      fun _ t' => Working patience t' ∧ written t'.log <+: written t.log ++ [bytes] := by
  refine wp_unlessHung (fun _ => ⟨h, List.prefix_append _ _⟩) fun hhung => ?_
  rw [wp_bind]
  refine wp_mono (looked_ready h hhung) (fun answer t₁ h₁ => ?_) fun _ _ h => h.elim
  obtain ⟨h₁, hhung₁, hgrown, hno⟩ := h₁
  rw [← written_grown hgrown]
  refine wp_ite (fun _ => ⟨h₁, List.prefix_append _ _⟩) fun hanswer => ?_
  obtain ⟨hlooked, hready⟩ := hno (by simpa using hanswer)
  refine wp_ite (fun _ => ⟨h₁, List.prefix_append _ _⟩) fun hle => ?_
  rw [wp_bind]
  refine wp_mono (callAndWait_spec h₁.sound hhung₁ hlooked hready (not_lt.mp hle))
    (fun _ t' h' => ?_) fun _ t' h' => h'
  exact ⟨h'.1, h'.2.1, fun hf => h'.2.2.1 (hf.grown hgrown), h'.2.2.2⟩

/-- A question of the core is a look, unless the worker waits for ever. -/
theorem isCancelled_run (js : Javascript) (patience : ℕ) (hhung : t.hung = false) :
    (lookCancelled js).run t = .ok ((SourceAdapter js patience).isCancelled t).1
      ((SourceAdapter js patience).isCancelled t).2 := by
  change lookCancelled js t = _
  simp [SourceAdapter, hhung, lookCancelled]

theorem isCancelled_hung (js : Javascript) (patience : ℕ) (hhung : t.hung = true) :
    (SourceAdapter js patience).isCancelled t = (true, t) := by
  simp [SourceAdapter, hhung]

theorem isCancelled_spec (js : Javascript) (h : Working patience t) :
    Working patience ((SourceAdapter js patience).isCancelled t).2 ∧
      ((SourceAdapter js patience).isCancelled t).2.hung = t.hung ∧
      Grown ThreadEvent.NoCall t.log ((SourceAdapter js patience).isCancelled t).2.log := by
  cases hhung : t.hung with
  | true =>
    rw [isCancelled_hung js patience hhung]
    exact ⟨h, hhung, Grown.refl _⟩
  | false =>
    obtain ⟨hworking, hhung', hgrown, -⟩ :=
      (wp_of_ok (isCancelled_run js patience hhung)).mp (looked_ready h hhung)
    exact ⟨hworking, hhung', hgrown⟩

/-! ### In the world of the core -/

/-- Every call was answered as it should be, and the sink was given all that the core has passed
on. -/
structure Delivering (patience : ℕ) (w : World Threads) : Prop where
  working : Working patience w.foreign
  hung : w.foreign.hung = false
  fulfilled : Fulfilled w.foreign.log
  complete : written w.foreign.log = w.delivered

/-- The sink was given the beginning of it. -/
structure Interrupted (patience : ℕ) (w : World Threads) : Prop where
  working : Working patience w.foreign
  begins : written w.foreign.log <+: w.delivered

theorem Delivering.interrupted {w : World Threads} (h : Delivering patience w) :
    Interrupted patience w := ⟨h.working, h.complete ▸ List.prefix_refl _⟩

theorem Delivering.flatten_eq {w : World Threads} (h : Delivering patience w) :
    (written w.foreign.log).flatten = w.bytes := by
  rw [h.complete]
  rfl

theorem Interrupted.flatten_prefix {w : World Threads} (h : Interrupted patience w) :
    (written w.foreign.log).flatten <+: w.bytes := by
  obtain ⟨rest, hrest⟩ := h.begins
  rw [World.bytes, ← hrest, List.flatten_append]
  exact List.prefix_append _ _

theorem cancelled_delivering : Preserves (Delivering patience) (Interrupted patience)
    (SourceAdapter js patience).cancelled := by
  intro w h
  obtain ⟨hworking, hhung, hgrown⟩ := isCancelled_spec js h.working
  change Delivering patience { w with foreign := _ }
  exact ⟨hworking, hhung.trans h.hung, h.fulfilled.grown hgrown,
    (written_grown hgrown).trans h.complete⟩

theorem read_delivering (capacity : ℕ) : Preserves (Delivering patience) (Interrupted patience)
    ((SourceAdapter js patience).read capacity) := by
  intro w h
  rw [BackupByteSource.read, onForeign, wp_zoom]
  refine wp_mono (readChunk_spec h.working capacity) (fun _ t' h' => ?_) fun _ t' h' => ?_
  · exact ⟨h'.1, h'.2.1, h'.2.2.1 h.fulfilled, h'.2.2.2.trans h.complete⟩
  · exact ⟨h'.1, h.complete ▸ h'.2⟩

theorem write_delivering (chunk : Bytes) : Preserves (Delivering patience) (Interrupted patience)
    ((SinkAdapter js patience).write chunk) := by
  intro w h
  rw [BackupByteSink.write, wp_bind, wp_modify, onForeign, wp_zoom]
  refine wp_mono (writeChunk_spec h.working chunk) (fun _ t' h' => ?_) fun _ t' h' => ?_
  · refine ⟨h'.1, h'.2.1, h'.2.2.1 h.fulfilled, h'.2.2.2.trans ?_⟩
    exact congrArg (fun l => l ++ [chunk]) h.complete
  · refine ⟨h'.1, ?_⟩
    change written t'.log <+: w.delivered ++ [chunk]
    rw [← h.complete]
    exact h'.2

theorem cancelled_at_work : Preserves (fun w => Working patience w.foreign)
    (fun w => Working patience w.foreign) (SourceAdapter js patience).cancelled :=
  fun _ h => (isCancelled_spec js h).1

theorem read_at_work (capacity : ℕ) : Preserves (fun w => Working patience w.foreign)
    (fun w => Working patience w.foreign) ((SourceAdapter js patience).read capacity) := by
  intro w h
  rw [BackupByteSource.read, onForeign, wp_zoom]
  exact wp_mono (readChunk_spec h capacity) (fun _ _ h' => h'.1) fun _ _ h' => h'.1

theorem write_at_work (chunk : Bytes) : Preserves (fun w => Working patience w.foreign)
    (fun w => Working patience w.foreign) ((SinkAdapter js patience).write chunk) := by
  intro w h
  rw [BackupByteSink.write, wp_bind, wp_modify, onForeign, wp_zoom]
  exact wp_mono (writeChunk_spec h chunk) (fun _ _ h' => h'.1) fun _ _ h' => h'.1

/-! ## How the core ends -/

section core

variable {σ δ κ : Type} {source : BackupByteSource σ} {sink : BackupByteSink σ}

/-- What source and sink preserve, opening preserves. -/
theorem openObjectV1_preserves {J F : World σ → Prop} (hJF : ∀ w, J w → F w)
    (hcancelled : Preserves J F source.cancelled) (hread : ∀ n, Preserves J F (source.read n))
    (hwrite : ∀ chunk, Preserves J F (sink.write chunk)) (A : StreamAead) (R : RawDecoder δ)
    (context : BackupObjectContextV1) : Preserves J F (openObjectV1 A R source sink context) := by
  have hself : ∀ {α : Type} {x : Call σ α}, Preserves J F x →
      Sim (fun w v => w = v ∧ J w) (fun w v => w = v ∧ F w) x x := by
    rintro α x h w _ ⟨rfl, hw⟩
    have hx := h w hw
    cases hr : x.run w with
    | ok a w' => exact .ok ⟨rfl, (wp_of_ok hr).mp hx⟩
    | error e w' => exact .error ⟨rfl, (wp_of_error hr).mp hx⟩
  have hstep : InStep (fun w v => w = v ∧ J w) (fun w v => w = v ∧ F w) source sink source sink :=
    inStep_of_reads (fun _ _ h => ⟨h.1, hJF _ h.2⟩) (hself hcancelled) (fun n => hself (hread n))
      fun chunk => hself (hwrite chunk)
  intro w hw
  exact wp_of_agree (hstep.openObjectV1 A R context w w ⟨rfl, hw⟩) (wp_true _ w)
    (fun _ _ _ h _ => h.2) fun _ _ _ h _ => h.2

variable {Q : World σ → Prop}

/-- **Opening ends with a look** whether the caller has cancelled. -/
theorem openObjectV1_last
    (hcheck : ∀ w, wp (checkCancelled source) w (fun _ => Q) fun _ _ => True) (A : StreamAead)
    (R : RawDecoder δ) (context : BackupObjectContextV1) (w : World σ) :
    wp (openObjectV1 A R source sink context) w (fun _ => Q) fun _ _ => True := by
  rw [openObjectV1, wp_bind]
  refine wp_mono (wp_true _ w) (fun _ w₁ _ => ?_) fun _ _ h => h
  rw [wp_bind]
  refine wp_mono (wp_true _ w₁) (fun _ w₂ _ => ?_) fun _ _ h => h
  rw [wp_bind]
  refine wp_mono (wp_true _ w₂) (fun _ w₃ _ => ?_) fun _ _ h => h
  rw [wp_bind]
  refine wp_mono (hcheck w₃) (fun _ w₄ h => ?_) fun _ _ h => h
  exact wp_ofResult (fun _ _ => h) fun _ _ => trivial

section sealing

variable (hwrite : ∀ chunk w, wp (sink.write chunk) w (fun _ => Q) fun _ _ => True)

include hwrite

theorem writeEnvelopeBytes_last {bytes : Bytes} (hne : bytes ≠ [])
    (s : Owning EnvelopeWriter (World σ)) : wp (EnvelopeWriter.writeEnvelopeBytes sink bytes) s
      (fun _ s' => Q s'.world) fun _ _ => True := by
  have hchunks : chunks maxIoChunkBytesV1 bytes ≠ [] := by
    intro hnil
    have hflatten := chunks_flatten (show 0 < maxIoChunkBytesV1 by decide) bytes
    rw [hnil] at hflatten
    exact hne hflatten.symm
  rw [EnvelopeWriter.writeEnvelopeBytes, wp_bind, wp_getSelf, wp_bind]
  refine wp_ofResult (fun _ _ => ?_) fun _ _ => trivial
  rw [wp_bind, wp_modifySelf]
  refine wp_mono (wp_forM (fun done s => done ≠ [] → Q s.world) _ (fun done chunk s _ _ => ?_)
    fun h => absurd rfl h) (fun _ _ h => h hchunks) fun _ _ h => h
  rw [wp_onWorld]
  exact wp_mono (hwrite chunk _) (fun _ _ h _ => h) fun _ _ h => h

theorem writeEncryptedBlock_last (ciphertext : Bytes) (s : Owning EnvelopeWriter (World σ)) :
    wp (EnvelopeWriter.writeEncryptedBlock sink ciphertext) s (fun _ s' => Q s'.world)
      fun _ _ => True := by
  refine wp_ite (fun _ => trivial) fun hlength => ?_
  rw [wp_bind, wp_getSelf, wp_bind]
  refine wp_ofResult (fun _ _ => ?_) fun _ _ => trivial
  rw [wp_bind, wp_modifySelf]
  refine wp_ite (fun _ => trivial) fun _ => ?_
  rw [wp_bind]
  refine wp_mono (wp_true _ _) (fun _ s' _ => ?_) fun _ _ h => h
  refine writeEnvelopeBytes_last hwrite (fun hnil => hlength (.inl ?_)) s'
  rw [hnil]
  decide

variable (A : StreamAead) (C : Compressor κ) (sha256 : Bytes → Bytes)

theorem finishEnvelope_last (s : Owning EnvelopeWriter (World σ)) :
    wp (EnvelopeWriter.finish A sha256 sink) s (fun _ s' => Q s'.world) fun _ _ => True := by
  rw [EnvelopeWriter.finish, wp_bind, wp_getSelf, wp_bind]
  refine wp_orThrow (fun encryptor _ => ?_) fun _ => trivial
  rw [wp_bind, wp_modifySelf, wp_bind]
  refine wp_orThrow (fun ciphertext _ => ?_) fun _ => trivial
  rw [wp_bind]
  refine wp_mono (writeEncryptedBlock_last hwrite ciphertext _) (fun _ s' h => ?_) fun _ _ h => h
  rw [wp_bind, wp_getSelf]
  exact h

theorem finish_last (s : Owning (BackupObjectWriterV1 κ) (World σ)) :
    wp (BackupObjectWriterV1.finish A C sha256 sink) s (fun _ s' => Q s'.world)
      fun _ _ => True := by
  rw [BackupObjectWriterV1.finish, wp_bind, wp_getSelf]
  refine wp_ite (fun _ => trivial) fun _ => ?_
  rw [wp_bind]
  refine wp_orThrow (fun active _ => ?_) fun _ => trivial
  rw [wp_bind, wp_get, wp_bind, wp_onWorld, wp_set]
  refine wp_ite (fun _ => ?_) fun _ => trivial
  split
  · rename_i descriptor s' hrun
    have hlast := (wp_of_ok hrun).mp (finishEnvelope_last hwrite A sha256 _)
    rw [wp_bind, wp_onWorld, wp_set, wp_bind, wp_modifySelf]
    exact hlast
  · trivial

theorem sealLoop_last (rounds : ℕ) (writer : BackupObjectWriterV1 κ) (w : World σ) :
    wp (sealLoop A C sha256 source sink rounds writer) w (fun _ => Q) fun _ _ => True := by
  induction rounds generalizing writer w with
  | zero => trivial
  | succ rounds ih =>
    rw [sealLoop, wp_bind]
    refine wp_mono (wp_true _ w) (fun _ w₁ _ => ?_) fun _ _ h => h
    refine wp_ite (fun _ => trivial) fun _ => ?_
    rw [wp_bind]
    refine wp_mono (wp_true _ w₁) (fun data w₂ _ => ?_) fun _ _ h => h
    refine wp_ite (fun _ => trivial) fun _ => ?_
    rw [wp_bind]
    refine wp_mono (wp_true _ w₂) (fun _ w₃ _ => ?_) fun _ _ h => h
    refine wp_ite (fun _ => trivial) fun _ => ?_
    refine wp_ite (fun _ => ?_) fun _ => ?_
    · rw [wp_bind, wp_withSelf]
      exact wp_mono (finish_last hwrite A C sha256 ⟨writer, w₃⟩) (fun _ _ h => h) fun _ _ h => h
    · rw [wp_bind]
      exact wp_mono (wp_true _ w₃) (fun _ w₄ _ => ih _ w₄) fun _ _ h => h

/-- **Sealing ends with a write.** -/
theorem sealObjectV1_last (context : BackupObjectContextV1) (random : Option NoncePrefix)
    (w : World σ) : wp (sealObjectV1 A C sha256 source sink context random) w (fun _ => Q)
      fun _ _ => True := by
  rw [sealObjectV1, wp_bind]
  refine wp_mono (wp_true _ w) (fun _ w₁ _ => ?_) fun _ _ h => h
  refine wp_ite (fun _ => trivial) fun _ => ?_
  rw [wp_bind]
  refine wp_mono (wp_true _ w₁) (fun writer w₂ _ => ?_) fun _ _ h => h
  exact sealLoop_last hwrite A C sha256 _ writer w₂

end sealing

end core

/-! ### The last look -/

theorem lookCancelled_answer (js : Javascript) (t : Threads) :
    wp (lookCancelled js) t (fun answer t' => t'.cancelled = answer) fun _ _ => True := rfl

theorem isCancelled_no (h : ((SourceAdapter js patience).isCancelled t).1 = false) :
    ((SourceAdapter js patience).isCancelled t).2.cancelled = false := by
  cases hhung : t.hung with
  | true =>
    rw [isCancelled_hung js patience hhung] at h
    cases h
  | false =>
    have hanswer := (wp_of_ok (isCancelled_run js patience hhung)).mp (lookCancelled_answer js t)
    exact hanswer.trans h

theorem check_last (js : Javascript) (patience : ℕ) (w : World Threads) :
    wp (checkCancelled (SourceAdapter js patience)) w
      (fun _ w' => w'.foreign.cancelled = false) fun _ _ => True := by
  have hrun : (SourceAdapter js patience).cancelled.run w =
      .ok ((SourceAdapter js patience).isCancelled w.foreign).1
        { w with foreign := ((SourceAdapter js patience).isCancelled w.foreign).2 } := rfl
  rw [checkCancelled, wp_bind, wp_of_ok hrun]
  refine wp_ite (fun _ => trivial) fun hno => isCancelled_no ?_
  simpa using hno

theorem waitForCallback_last (call : ℕ) (callback : JsCallback) (t : Threads) :
    wp (waitForCallback js call callback patience) t (fun _ t' => t'.cancelled = false)
      fun _ _ => True := by
  induction patience generalizing t with
  | zero => trivial
  | succ patience ih =>
    rw [waitForCallback, wp_bind]
    refine wp_mono (wp_true _ t) (fun _ t₁ _ => ?_) fun _ _ h => h
    refine wp_ite (fun _ => trivial) fun _ => ?_
    rw [wp_bind]
    refine wp_mono (wp_true _ t₁) (fun _ t₂ _ => ?_) fun _ _ h => h
    refine wp_ite (fun _ => trivial) fun _ => ?_
    rw [wp_bind]
    refine wp_mono (wp_true _ t₂) (fun reply t₃ _ => ?_) fun _ _ h => h
    cases reply with
    | answer result =>
      dsimp only
      rw [wp_bind]
      refine wp_mono (lookCancelled_answer js t₃) (fun answer t₄ heq => ?_) fun _ _ h => h
      refine wp_ite (fun _ => trivial) fun hno => wp_ofResult (fun _ _ => ?_) fun _ _ => trivial
      simpa [heq] using hno
    | timeout => exact ih t₃
    | disconnected => trivial

theorem write_last (chunk : Bytes) (w : World Threads) :
    wp ((SinkAdapter js patience).write chunk) w
      (fun _ w' => w'.foreign.cancelled = false) fun _ _ => True := by
  rw [BackupByteSink.write, wp_bind, wp_modify, onForeign, wp_zoom]
  refine wp_unlessHung (fun _ => trivial) fun _ => ?_
  rw [wp_bind]
  refine wp_mono (wp_true _ _) (fun _ t₁ _ => ?_) fun _ _ h => h
  refine wp_ite (fun _ => trivial) fun _ => ?_
  refine wp_ite (fun _ => trivial) fun _ => ?_
  rw [wp_bind, callAndWait, wp_bind]
  refine wp_mono (wp_true _ t₁) (fun call t₂ _ => ?_) fun _ _ h => h
  exact wp_mono (waitForCallback_last call _ t₂) (fun _ _ h => h) fun _ _ h => h

/-! ## A task -/

def ThreadEvent.isCall : ThreadEvent → Bool
  | called _ _ => true
  | _ => false

theorem countP_le_one {α : Type} {p : α → Bool} {l : List α}
    (h : ∀ a x b y c, l = a ++ x :: (b ++ y :: c) → p x = true → p y = true → False) :
    l.countP p ≤ 1 := by
  induction l with
  | nil => simp
  | cons x l ih =>
    rw [List.countP_cons]
    by_cases hx : p x = true
    · have hnone : l.countP p = 0 := by
        rw [List.countP_eq_zero]
        intro y hy hpy
        obtain ⟨b, c, rfl⟩ := List.append_of_mem hy
        exact h [] x b y c rfl hx hpy
      rw [hnone, if_pos hx]
    · rw [if_neg hx]
      exact ih fun a y b z c heq => h (x :: a) y b z c (by rw [heq, List.cons_append])

/-- **After it is cancelled, the worker calls a function at most once.** -/
theorem callsAfterCancel {log before after : List ThreadEvent}
    (h : Allowed (fun before event => event.Proper before) log)
    (hlog : log = before ++ .js .cancel :: after) : after.countP ThreadEvent.isCall ≤ 1 := by
  apply countP_le_one
  rintro a x b y c rfl hx hy
  cases y with
  | called call callback =>
    obtain ⟨-, ⟨looks, extra, hsplit, hextra⟩, -⟩ := h (before ++ .js .cancel :: (a ++ x :: b))
      (.called call callback) c (by rw [hlog]; simp)
    have hxjs : x ∉ extra := by
      intro hmem
      have hjs := hextra x hmem
      cases x with
      | called other callback' => exact hjs
      | _ => cases hx
    -- the second call comes after a look that comes after the first
    have hcancel : .js .cancel ∈ looks := by
      have hsplit' : (before ++ .js .cancel :: a) ++ x :: b =
          (looks ++ [.looked false]) ++ extra := by
        rw [← hsplit]
        simp
      obtain ⟨mid, hmid, -⟩ | ⟨mid, -, hmid⟩ := List.append_eq_append_iff.mp hsplit'
      · have hmem : .js .cancel ∈ looks ++ [.looked false] := by
          rw [hmid]
          simp
        simpa using hmem
      · refine absurd ?_ hxjs
        rw [hmid]
        simp
    have hlooked : (ThreadEvent.looked false).Proper looks := by
      apply h looks (.looked false) (extra ++ .called call callback :: c)
      have hwhole : log =
          (before ++ .js .cancel :: (a ++ x :: b)) ++ .called call callback :: c := by
        rw [hlog]
        simp
      rw [hwhole, hsplit]
      simp
    cases hlooked.mpr hcancel
  | _ => cases hy

/-- Every call was answered by a promise that was fulfilled with something that fits. -/
def Resolved (log : List ThreadEvent) : Prop :=
  ∀ call callback, .called call callback ∈ log → ∃ value data,
    .js (.on call (.resolve value)) ∈ log ∧ callback.settled value = .ok data

theorem Fulfilled.resolved (h : Sound t) (hf : Fulfilled t.log) : Resolved t.log := by
  intro call callback hmem
  obtain ⟨data, hdata⟩ := hf call callback hmem
  obtain ⟨before, after, hlog⟩ := List.append_of_mem hdata
  obtain ⟨-, callback', hcall, hanswered⟩ := h.proper before _ after hlog
  have hsub : before ⊆ t.log := hlog ▸ List.subset_append_left _ _
  obtain rfl := h.callback_eq hmem (hsub hcall)
  obtain ⟨value, hvalue, hsettled⟩ | ⟨-, herror⟩ := hanswered
  · exact ⟨value, data, hsub hvalue, hsettled.symm⟩
  · cases herror

section task

variable {α : Type}

/-- **What is known of a task.** The threads keep to their protocol; the worker waits for ever only
for an answer that it does not get; the promise of a task that was cancelled is not fulfilled, and
nearly nothing is called any more. -/
structure TaskProtocol (patience : ℕ) (r : TaskEnd α) : Prop where
  order : Allowed (fun before event => event.Proper before) r.log
  late : ∀ before after, r.log = before ++ .js .cancel :: after →
    after.countP ThreadEvent.isCall ≤ 1
  waiting : r.settled = none → ∃ call, WaitsFor patience r.log call
  notCancelled : ∀ a, r.settled = some (.ok a) → .js .cancel ∉ r.log

theorem compute_protocol {x : Call Threads α}
    (h : wp x { foreign := .new, delivered := [] }
      (fun _ w => Working patience w.foreign ∧ w.foreign.cancelled = false)
      fun _ w => Working patience w.foreign) : TaskProtocol patience (compute x .new) := by
  have hbase : ∀ {w : World Threads} {result : Except BackupErrorCode α},
      Working patience w.foreign → (∀ a, result = .ok a → w.foreign.cancelled = false) →
      TaskProtocol patience
        { settled := if w.foreign.hung then none else some result, log := w.foreign.log } := by
    intro w result hworking hok
    refine ⟨hworking.sound.proper, fun before after hlog => ?_, fun hnone => ?_,
      fun a ha hmem => ?_⟩
    · exact callsAfterCancel hworking.sound.proper hlog
    · apply hworking.waiting
      by_contra hno
      simp [hno] at hnone
    · split_ifs at ha
      have hcancelled := hok a (Option.some.inj ha)
      cases hcancelled.symm.trans (hworking.sound.cancelled.mpr hmem)
  unfold compute
  cases hr : x.run { foreign := .new, delivered := [] } with
  | ok a w =>
    obtain ⟨hworking, hcancelled⟩ := (wp_of_ok hr).mp h
    exact hbase hworking fun _ _ => hcancelled
  | error e w => exact hbase ((wp_of_error hr).mp h) fun _ h => (by cases h)

theorem run_of_fulfilled {x : Call Threads α} {a : α}
    (h : (compute x t).settled = some (.ok a)) : ∃ w,
      x.run { foreign := t, delivered := [] } = .ok a w ∧ (compute x t).log = w.foreign.log := by
  unfold compute at h ⊢
  cases hr : x.run { foreign := t, delivered := [] } with
  | ok b w =>
    rw [hr] at h
    cases hhung : w.foreign.hung with
    | true => simp [final, hhung] at h
    | false =>
      obtain rfl : b = a := by simpa [outcome, final, hhung] using h
      exact ⟨w, rfl, rfl⟩
  | error e w =>
    rw [hr] at h
    cases hhung : w.foreign.hung <;> simp [outcome, final, hhung] at h

/-- What the bindings answer at once, or the task that they start. -/
def Spawned (context : Option BackupObjectContextV1) (cancelled : Bool) (Q : TaskEnd α → Prop) :
    Except BackupErrorCode (TaskEnd α) → Prop
  | .error e => context = none ∧ e = .invalidState ∨ cancelled = true ∧ e = .cancelled
  | .ok r => context ≠ none ∧ cancelled = false ∧ Q r

theorem spawnTask_spawned {x : BackupObjectContextV1 → Call Threads α} {Q : TaskEnd α → Prop}
    {context : Option BackupObjectContextV1}
    (h : ∀ context', context = some context' → Q (compute (x context') .new)) (cancelled : Bool) :
    Spawned context cancelled Q (spawnTask context cancelled x) := by
  cases context with
  | none => exact .inl ⟨rfl, rfl⟩
  | some context =>
    cases cancelled with
    | true => exact .inr ⟨rfl, rfl⟩
    | false => exact ⟨by simp, rfl, h context rfl⟩

end task

variable {δ κ : Type} (A : StreamAead)

/-- Opening, with the two functions of the caller. -/
theorem openObjectV1_delivering (R : RawDecoder δ) (context : BackupObjectContextV1) :
    wp (openObjectV1 A R (SourceAdapter js patience) (SinkAdapter js patience) context)
      { foreign := .new, delivered := [] }
      (fun _ w => Delivering patience w ∧ w.foreign.cancelled = false)
      fun _ w => Interrupted patience w := by
  have hstart : Delivering patience { foreign := .new, delivered := [] } :=
    ⟨working_new patience, rfl, fun _ _ hmem => absurd hmem List.not_mem_nil, rfl⟩
  have hopen : Preserves (Delivering patience) (Interrupted patience)
      (openObjectV1 A R (SourceAdapter js patience) (SinkAdapter js patience) context) :=
    openObjectV1_preserves (fun _ h => h.interrupted) cancelled_delivering read_delivering
      write_delivering A R context
  have hrun := hopen _ hstart
  have hlast : wp (openObjectV1 A R (SourceAdapter js patience) (SinkAdapter js patience) context)
      { foreign := .new, delivered := [] } _ _ :=
    openObjectV1_last (check_last js patience) A R context _
  exact wp_mono (wp_and hrun hlast) (fun _ _ h => h) fun _ _ h => h.1

/-- **Opening a backup object from JavaScript**, whatever the JavaScript thread does between the
steps of the worker. A context that was disposed of and a token that is cancelled already are
refused at once. Otherwise the two threads keep to their protocol, and a promise that is fulfilled
says that the task was not cancelled, and that every promise of the caller's functions was fulfilled
too. -/
theorem openBackupObjectV1_threads (js : Javascript) (patience : ℕ) (R : RawDecoder δ)
    (context : Option BackupObjectContextV1) (cancelled : Bool) :
    Spawned context cancelled
      (fun r => TaskProtocol patience r ∧ (r.settled = some (.ok ()) → Resolved r.log))
      (openBackupObjectV1 js patience A R context cancelled) := by
  apply spawnTask_spawned
  intro context _
  have hrun : wp (openObjectV1 A R (SourceAdapter js patience) (SinkAdapter js patience) context)
    { foreign := .new, delivered := [] } _ _ := openObjectV1_delivering A R context
  constructor
  · apply compute_protocol
    exact wp_mono hrun (fun _ _ h => ⟨h.1.working, h.2⟩) fun _ _ h => h.working
  · intro hok
    obtain ⟨w, hr, hlog⟩ := run_of_fulfilled hok
    obtain ⟨hdelivering, -⟩ := (wp_of_ok hr).mp hrun
    rw [hlog]
    exact hdelivering.fulfilled.resolved hdelivering.working.sound

/-- **Sealing a backup object from JavaScript.** -/
theorem sealBackupObjectV1_threads (js : Javascript) (patience : ℕ) (C : Compressor κ)
    (sha256 : Bytes → Bytes) (random : Option NoncePrefix)
    (context : Option BackupObjectContextV1) (cancelled : Bool) :
    Spawned context cancelled (TaskProtocol patience)
      (sealBackupObjectV1 js patience A C sha256 random context cancelled) := by
  apply spawnTask_spawned
  intro context _
  apply compute_protocol
  have hkeeps : Preserves (fun w => Working patience w.foreign)
      (fun w => Working patience w.foreign) (sealObjectV1 A C sha256 (SourceAdapter js patience)
        (SinkAdapter js patience) context random) :=
    sealObjectV1_keeps write_at_work A C sha256 cancelled_at_work read_at_work context random
  have hlast : wp (sealObjectV1 A C sha256 (SourceAdapter js patience) (SinkAdapter js patience)
      context random) { foreign := .new, delivered := [] } _ _ :=
    sealObjectV1_last write_last A C sha256 context random _
  rw [wp_bind]
  exact wp_mono (wp_and (hkeeps _ (working_new patience)) hlast) (fun _ _ h => h) fun _ _ h => h.1

/-! ## What the caller is passed -/

/-- **The function of the sink is called with nothing but what was sealed**, in order, and with all
of it if the promise of the task is fulfilled, whatever the function of the source serves and
whenever the answers come. -/
theorem openBackupObjectV1_passes (js : Javascript) (patience : ℕ) (C : Compressor κ)
    (R : RawDecoder δ) (frame : Bytes → Option Bytes)
    (hC : C.Encodes frame BackupObjectWriterV1.level BoundedDecoder.windowLogMax)
    (hsound : R.Sound frame BoundedDecoder.windowLogMax) (context : BackupObjectContextV1)
    (objects : Set (SealedObject A C context)) (hfresh : FreshNonces objects)
    (hideal : IdealAead objects) (cancelled : Bool) :
    Spawned (some context) cancelled
      (fun r => ((written r.log).flatten = [] ∨
          ∃ o ∈ objects, (written r.log).flatten <+: o.plaintext) ∧
        (r.settled = some (.ok ()) → ∃ o ∈ objects, (written r.log).flatten = o.plaintext))
      (openBackupObjectV1 js patience A R (some context) cancelled) := by
  apply spawnTask_spawned
  intro context' heq
  obtain rfl := Option.some.inj heq
  have hdelivering : wp (openObjectV1 A R (SourceAdapter js patience) (SinkAdapter js patience)
    context) { foreign := .new, delivered := [] } _ _ := openObjectV1_delivering A R context
  have hdelivered := openObjectV1_delivered hC hsound hfresh hideal (SourceAdapter js patience)
    (SinkAdapter js patience) { foreign := .new, delivered := [] } rfl
  refine ⟨?_, fun hok => ?_⟩
  · refine final_of_wp (P := fun (w : World Threads) => (written w.foreign.log).flatten = [] ∨
      ∃ o ∈ objects, (written w.foreign.log).flatten <+: o.plaintext) ?_
    refine wp_mono (wp_and hdelivered hdelivering) (fun _ w hw => ?_) fun _ w hw => ?_
    · obtain ⟨⟨o, ho, hbytes⟩, hdelivering, -⟩ := hw
      exact .inr ⟨o, ho, hdelivering.flatten_eq.trans hbytes ▸ List.prefix_refl _⟩
    · obtain ⟨hnone | ⟨o, ho, hbegins⟩, hinterrupted⟩ := hw
      · exact .inl (List.prefix_nil.mp (hnone ▸ hinterrupted.flatten_prefix))
      · exact .inr ⟨o, ho, hinterrupted.flatten_prefix.trans hbegins⟩
  · obtain ⟨w, hr, hlog⟩ := run_of_fulfilled hok
    obtain ⟨o, ho, hbytes⟩ := (wp_of_ok hr).mp hdelivered
    obtain ⟨hdelivering, -⟩ := (wp_of_ok hr).mp hdelivering
    rw [hlog]
    exact ⟨o, ho, hdelivering.flatten_eq.trans hbytes⟩

/-! ### A caller in memory -/

def ThreadEvent.receivedData : ThreadEvent → Bytes
  | received _ (.ok data) => data
  | _ => []

/-- A call is answered; `serve` gives what is read. -/
def ThreadEvent.answerWith (serve : ℕ → Bytes) : ThreadEvent → List JsEvent
  | called call (.read maximum) => [.on call (.start true), .on call (.resolve (serve maximum))]
  | called call (.write _) => [.on call (.start true), .on call (.resolve [])]
  | _ => []

def receivedBytes (log : List ThreadEvent) : Bytes :=
  log.flatMap fun event => event.receivedData

/-- The JavaScript thread that answers every call at once, and reads from memory. -/
def inMemory (bytes : Bytes) : Javascript := fun log => (log.getLast?.elim [] fun event =>
  event.answerWith fun maximum => (bytes.drop (receivedBytes log).length).take maximum)

/-- The object is served without its last byte. -/
theorem openBackupObjectV1_passes_truncated :
    Spawned (some default) false
      (fun r => ((written r.log).flatten = [] ∨
          ∃ o ∈ ({oneBlockObject} : Set _), (written r.log).flatten <+: o.plaintext) ∧
        (r.settled = some (.ok ()) →
          ∃ o ∈ ({oneBlockObject} : Set _), (written r.log).flatten = o.plaintext))
      (openBackupObjectV1 (inMemory oneBlockObject.bytes.dropLast) 1 oneBlockAead storedDecoder
        (some default) false) :=
  openBackupObjectV1_passes oneBlockAead _ 1 storedCompressor storedDecoder storedFrame
    (storedCompressor_encodes _ (by decide +kernel)) (storedDecoder_sound _) default
    {oneBlockObject} (by rintro o rfl o' rfl _; rfl) oneBlockObject_ideal false

end KChat.Backup.Napi
