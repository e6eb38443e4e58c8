import KChat.Backup.Chunking
import KChat.Backup.Traced
import KChat.Lib.Record

/-!
# What the reader asks of its source

The source and the sink may do anything at any call: count more bytes than they were asked for, fail,
or start to report that the caller has cancelled.

* `Exchange`: a poll, a read or a write, with its answer; `BackupByteSource.monitored`: the source that
  records them; `monitored_inStep`: apart from the record it is the source.
* `Exchange.Proper`: what may come after what; `Following`: what holds as long as the reader goes on,
  `Stopped`: what holds when it has failed; `read_follows`, `readExact_follows`,
  **`openObjectV1_follows`**.
* `readExact_reads`, `nextLength_reads`: how often the source is read.
* **`source_protocol`**.
-/

namespace KChat.Backup

open Lib

variable {σ δ : Type}

/-! ## The record -/

/-- A call of the source or the sink: the answer to a poll, the capacity of a read and what it gave,
a chunk for the sink. -/
inductive Exchange
  | polled (answer : Bool)
  | read (capacity : ℕ) (result : Except BackupErrorCode Bytes)
  | written (chunk : Bytes)

namespace Exchange

def accepted : Exchange → ℕ
  | read capacity (.ok data) => if data.length ≤ capacity then data.length else 0
  | _ => 0

def isRead : Exchange → Bool
  | read _ _ => true
  | _ => false

/-- After this the source is not read again: the caller has cancelled, or a read gave nothing, too
much or an error. -/
def Ends : Exchange → Prop
  | polled answer => answer = true
  | read capacity (.ok data) => data = [] ∨ capacity < data.length
  | read _ (.error _) => True
  | written _ => False

end Exchange

def acceptedBytes (log : List Exchange) : ℕ := (log.map Exchange.accepted).sum

def readsOf (log : List Exchange) : ℕ := log.countP Exchange.isRead

/-- **What may come after `before`.** A read has a capacity between one byte and a chunk, and no more
than what is left of the ciphertext limit and one byte; what is left is not negative, and nothing has
ended the reading. After a poll that was answered with yes there is nothing. -/
def Exchange.Proper (before : List Exchange) : Exchange → Prop
  | .read capacity _ => 1 ≤ capacity ∧ capacity ≤ maxIoChunkBytesV1 ∧
      acceptedBytes before ≤ maxCiphertextObjectBytesV1 ∧
      capacity ≤ maxCiphertextObjectBytesV1 - acceptedBytes before + 1 ∧
      ∀ exchange ∈ before, ¬exchange.Ends
  | _ => .polled true ∉ before

/-- The source that records what it is asked. -/
def BackupByteSource.monitored (source : BackupByteSource σ) :
    BackupByteSource (σ × List Exchange) where
  readChunk capacity t :=
    match (source.readChunk capacity).run t.1 with
    | .ok data s => .ok data (s, t.2 ++ [.read capacity (.ok data)])
    | .error e s => .error e (s, t.2 ++ [.read capacity (.error e)])
  isCancelled t :=
    let r := source.isCancelled t.1
    (r.1, (r.2, t.2 ++ [.polled r.1]))

def BackupByteSink.monitored (sink : BackupByteSink σ) : BackupByteSink (σ × List Exchange) where
  writeChunk chunk := do
    modify fun t => (t.1, t.2 ++ [.written chunk])
    zoom Prod.fst (fun s t => (s, t.2)) (sink.writeChunk chunk)

def World.exchanges (w : World (σ × List Exchange)) : List Exchange := w.foreign.2

section protocol

variable {source : BackupByteSource σ} {sink : BackupByteSink σ}

/-- **Apart from the record** the calls are those of the source and the sink. -/
theorem monitored_inStep : InStep (fun w v => eraseWorld w = v) (fun w v => eraseWorld w = v)
    source.monitored sink.monitored source sink := by
  apply inStep_of_reads (fun _ _ h => h)
  · rintro w _ rfl
    exact .ok rfl
  · rintro capacity w _ rfl
    change Agree _ _ (source.monitored.read capacity w) (source.read capacity (eraseWorld w))
    simp only [zoom, BackupByteSource.read, onForeign, BackupByteSource.monitored, eraseWorld,
      EStateM.run]
    cases source.readChunk capacity w.foreign.1 with
    | ok data s => exact .ok rfl
    | error e s => exact .error rfl
  · intro chunk
    unfold BackupByteSink.write
    apply Sim.bind
    · rintro w _ rfl
      exact .ok rfl
    · rintro _ w _ rfl
      cases hrun : (sink.writeChunk chunk).run w.foreign.1 with
      | ok a s =>
        have hrun' : (sink.monitored.writeChunk chunk).run w.foreign =
            .ok a (s, w.exchanges ++ [.written chunk]) :=
          (run_bind_ok rfl).trans (run_zoom_ok hrun)
        have htraced : (onForeign (sink.monitored.writeChunk chunk)).run w = _ := run_zoom_ok hrun'
        have hplain : (onForeign (sink.writeChunk chunk)).run (eraseWorld w) = _ := run_zoom_ok hrun
        rw [htraced, hplain]
        exact .ok rfl
      | error e s =>
        have hrun' : (sink.monitored.writeChunk chunk).run w.foreign =
            .error e (s, w.exchanges ++ [.written chunk]) :=
          (run_bind_ok rfl).trans (run_zoom_error hrun)
        have htraced : (onForeign (sink.monitored.writeChunk chunk)).run w = _ :=
          run_zoom_error hrun'
        have hplain : (onForeign (sink.writeChunk chunk)).run (eraseWorld w) = _ :=
          run_zoom_error hrun
        rw [htraced, hplain]
        exact .error rfl

/-! ## The calls -/

variable {w : World (σ × List Exchange)} {log : List Exchange} {input : CheckedSource}
  {exchange : Exchange}

@[simp] theorem acceptedBytes_append (log : List Exchange) (exchange : Exchange) :
    acceptedBytes (log ++ [exchange]) = acceptedBytes log + exchange.accepted := by
  simp [acceptedBytes]

theorem wp_monitored_cancelled {Q : Bool → World (σ × List Exchange) → Prop}
    {E : BackupErrorCode → World (σ × List Exchange) → Prop}
    (h : ∀ answer w', w'.exchanges = w.exchanges ++ [.polled answer] → Q answer w') :
    wp source.monitored.cancelled w Q E := h _ _ rfl

theorem wp_monitored_read {capacity : ℕ} {Q : Bytes → World (σ × List Exchange) → Prop}
    {E : BackupErrorCode → World (σ × List Exchange) → Prop}
    (h : ∀ data w', w'.exchanges = w.exchanges ++ [.read capacity (.ok data)] → Q data w')
    (h' : ∀ e w', w'.exchanges = w.exchanges ++ [.read capacity (.error e)] → E e w') :
    wp (source.monitored.read capacity) w Q E := by
  unfold BackupByteSource.read onForeign
  rw [wp_zoom]
  cases hrun : (source.readChunk capacity).run w.foreign.1 with
  | ok data s =>
    have hread : (source.monitored.readChunk capacity).run w.foreign =
        .ok data (s, w.exchanges ++ [.read capacity (.ok data)]) := by
      change source.monitored.readChunk capacity w.foreign = _
      simp only [BackupByteSource.monitored, hrun]
      rfl
    rw [wp_of_ok hread]
    exact h _ _ rfl
  | error e s =>
    have hread : (source.monitored.readChunk capacity).run w.foreign =
        .error e (s, w.exchanges ++ [.read capacity (.error e)]) := by
      change source.monitored.readChunk capacity w.foreign = _
      simp only [BackupByteSource.monitored, hrun]
      rfl
    rw [wp_of_error hread]
    exact h' _ _ rfl

theorem wp_monitored_write {chunk : Bytes} {Q : Unit → World (σ × List Exchange) → Prop}
    {E : BackupErrorCode → World (σ × List Exchange) → Prop}
    (h : ∀ w', w'.exchanges = w.exchanges ++ [.written chunk] → Q () w')
    (h' : ∀ e w', w'.exchanges = w.exchanges ++ [.written chunk] → E e w') :
    wp (sink.monitored.write chunk) w Q E := by
  unfold BackupByteSink.write onForeign BackupByteSink.monitored
  rw [wp_bind, wp_modify, wp_zoom, wp_bind, wp_modify, wp_zoom]
  exact wp_mono (wp_true _ _) (fun _ s _ => h _ rfl) fun e s _ => h' e _ rfl

/-! ## What holds while the reader goes on -/

/-- No poll has been answered with yes. -/
structure Going (log : List Exchange) : Prop where
  proper : Allowed (fun before exchange => exchange.Proper before) log
  notCancelled : .polled true ∉ log

/-- **What holds as long as the reader goes on**: it counts what it has accepted, and unless it has
seen the end the source may be read. -/
structure Following (input : CheckedSource) (log : List Exchange) : Prop extends Going log where
  bytes : input.bytes = acceptedBytes log
  bound : input.bytes ≤ maxCiphertextObjectBytesV1
  ends : input.eof = false → ∀ exchange ∈ log, ¬exchange.Ends

/-- **What holds when the reader has failed.** -/
structure Stopped (e : BackupErrorCode) (log : List Exchange) : Prop where
  proper : Allowed (fun before exchange => exchange.Proper before) log
  cancelled : .polled true ∈ log → e = .cancelled

theorem Going.stopped (h : Going log) (e : BackupErrorCode) : Stopped e log where
  proper := h.proper
  cancelled hmem := absurd hmem h.notCancelled

theorem Going.append (h : Going log) (hproper : exchange.Proper log)
    (hne : exchange ≠ .polled true) : Going (log ++ [exchange]) where
  proper := h.proper.concat hproper
  notCancelled hmem := by
    rw [List.mem_append, List.mem_singleton] at hmem
    obtain hmem | hmem := hmem
    · exact h.notCancelled hmem
    · exact hne hmem.symm

theorem Going.polled (h : Going log) : Going (log ++ [.polled false]) :=
  h.append h.notCancelled (by simp)

/-- An exchange that adds nothing and ends nothing. -/
theorem Following.append (h : Following input log) (hproper : exchange.Proper log)
    (hne : exchange ≠ .polled true) (hzero : exchange.accepted = 0) (hends : ¬exchange.Ends) :
    Following input (log ++ [exchange]) where
  toGoing := h.toGoing.append hproper hne
  bytes := by rw [acceptedBytes_append, hzero, h.bytes, Nat.add_zero]
  bound := h.bound
  ends heof other hmem := by
    rw [List.mem_append, List.mem_singleton] at hmem
    obtain hmem | rfl := hmem
    · exact h.ends heof other hmem
    · exact hends

theorem Following.polled (h : Following input log) : Following input (log ++ [.polled false]) :=
  h.append h.notCancelled (by simp) rfl (by simp [Exchange.Ends])

theorem Following.written (h : Following input log) (chunk : Bytes) :
    Following input (log ++ [.written chunk]) :=
  h.append h.notCancelled (by simp) rfl id

theorem checkCancelled_going (h : Going w.exchanges) : wp (checkCancelled source.monitored) w
    (fun _ w' => w'.exchanges = w.exchanges ++ [.polled false])
    fun e w' => Stopped e w'.exchanges := by
  unfold checkCancelled
  rw [wp_bind]
  apply wp_monitored_cancelled
  intro answer w' hw'
  cases answer with
  | false => exact hw'
  | true =>
    rw [if_pos rfl, wp_throw]
    refine ⟨?_, fun _ => rfl⟩
    rw [hw']
    exact h.proper.concat h.notCancelled

theorem checkCancelled_follows (h : Following input w.exchanges) :
    wp (checkCancelled source.monitored) w (fun _ w' => Following input w'.exchanges)
      fun e w' => Stopped e w'.exchanges := by
  refine wp_mono (checkCancelled_going h.toGoing) (fun _ w' hw' => ?_) fun _ _ h => h
  rw [hw']
  exact h.polled

theorem read_follows {n : ℕ} (hn : 0 < n) (h : Following input w.exchanges) :
    wp (input.read source.monitored n) w (fun r w' => Following r.2 w'.exchanges)
      fun e w' => Stopped e w'.exchanges := by
  unfold CheckedSource.read
  rw [wp_bind]
  refine wp_mono (checkCancelled_follows h) (fun _ w₁ h₁ => ?_) fun _ _ h => h
  refine wp_ite (fun _ => h₁) fun heof => ?_
  obtain ⟨capacity, hcapacity⟩ : ∃ capacity, capacity =
    min (min n maxIoChunkBytesV1) (maxCiphertextObjectBytesV1 - input.bytes + 1) := ⟨_, rfl⟩
  dsimp only
  rw [← hcapacity, wp_bind]
  have hbytes := h₁.bytes
  have hbound := h₁.bound
  have hchunk : 0 < maxIoChunkBytesV1 := by decide
  have hproper : ∀ result, (Exchange.read capacity result).Proper w₁.exchanges := by
    intro result
    refine ⟨by omega, by omega, by omega, by omega, h₁.ends (Bool.eq_false_iff.mpr heof)⟩
  apply wp_monitored_read
  · intro data w₂ h₂
    have hgoing : Going w₂.exchanges := by
      rw [h₂]
      exact h₁.toGoing.append (hproper _) (by simp)
    rw [wp_bind]
    refine wp_mono (checkCancelled_going hgoing) (fun _ w₃ h₃ => ?_) fun _ _ h => h
    have hgoing' : Going w₃.exchanges := by
      rw [h₃]
      exact hgoing.polled
    refine wp_ite (fun _ => hgoing'.stopped _) fun hle => ?_
    refine wp_ite (fun _ => hgoing'.stopped _) fun hmax => ?_
    rw [wp_pure]
    refine { hgoing' with bytes := ?_, bound := not_lt.mp hmax, ends := fun hend => ?_ }
    · rw [h₃, h₂, acceptedBytes_append, acceptedBytes_append, ← hbytes]
      simp [Exchange.accepted, not_lt.mp hle]
    · have hdata : data ≠ [] := by simpa using hend
      rw [h₃, h₂]
      intro exchange hmem
      simp only [List.mem_append, List.mem_singleton] at hmem
      obtain (hmem | rfl) | rfl := hmem
      · exact h₁.ends (Bool.eq_false_iff.mpr heof) exchange hmem
      · exact fun hends => hends.elim hdata hle
      · exact Bool.false_ne_true
  · intro e w₂ h₂
    rw [h₂]
    exact (h₁.toGoing.append (hproper _) (by simp)).stopped e

theorem readExact_follows (n : ℕ) (input : CheckedSource) (w : World (σ × List Exchange))
    (h : Following input w.exchanges) : wp (input.readExact source.monitored n) w
      (fun r w' => Following r.2 w'.exchanges) fun e w' => Stopped e w'.exchanges := by
  induction n using Nat.strong_induction_on generalizing input w with
  | _ n ih =>
    rw [CheckedSource.readExact]
    by_cases hn : n = 0
    · rw [dif_pos hn]
      exact h
    rw [dif_neg hn, wp_bind]
    refine wp_mono (read_follows (by omega) h) (fun r w₁ h₁ => ?_) fun _ _ h => h
    by_cases hr : r.1 = []
    · rw [dif_pos hr]
      exact h₁.stopped _
    have := List.length_pos_iff.mpr hr
    rw [dif_neg hr, wp_bind]
    exact wp_mono (ih _ (by omega) r.2 w₁ h₁) (fun _ _ h => h) fun _ _ h => h

theorem nextLength_follows (input : CheckedSource) (w : World (σ × List Exchange))
    (h : Following input w.exchanges) : wp (input.nextLength source.monitored) w
      (fun r w' => Following r.2 w'.exchanges) fun e w' => Stopped e w'.exchanges := by
  unfold CheckedSource.nextLength
  rw [wp_bind]
  refine wp_mono (read_follows one_pos h) (fun first w₁ h₁ => ?_) fun _ _ h => h
  refine wp_ite (fun _ => h₁) fun _ => ?_
  rw [wp_bind]
  refine wp_mono (readExact_follows 3 first.2 w₁ h₁) (fun rest w₂ h₂ => ?_) fun _ _ h => h
  exact wp_ite (fun _ => h₂.stopped _) fun _ => h₂

/-! ## Opening -/

theorem following_invariant : BoundedDecoder.Invariant (δ := δ) sink.monitored.write
    (checkCancelled source.monitored) (fun _ w => Following input w.exchanges)
    fun e w => Stopped e w.exchanges where
  fails _ e _ h := h.stopped e
  asks _ _ h := checkCancelled_follows h
  emits _ status w h _ _ := by
    apply wp_monitored_write
    · intro w' hw'
      rw [hw']
      exact h.written _
    · intro e w' hw'
      rw [hw']
      exact (h.written _).stopped e
  skips _ _ _ h _ := h
  completes _ _ h := h
  takesHeader _ _ _ _ h := h

variable (A : StreamAead) (R : RawDecoder δ) (context : BackupObjectContextV1)

theorem authenticateLoop_follows (rounds : ℕ) (input : CheckedSource) (decryptor : StreamDecryptor)
    (decoder : BoundedDecoder δ) (length : ℕ) (w : World (σ × List Exchange))
    (h : Following input w.exchanges) :
    wp (authenticateLoop A R source.monitored sink.monitored context rounds input decryptor decoder
      length) w (fun _ w' => Going w'.exchanges) fun e w' => Stopped e w'.exchanges := by
  induction rounds generalizing input decryptor decoder length w with
  | zero => exact h.stopped _
  | succ rounds ih =>
    rw [authenticateLoop, wp_bind]
    refine wp_mono (readExact_follows length input w h) (fun frame w₁ h₁ => ?_) fun _ _ h => h
    rw [wp_bind]
    refine wp_mono (nextLength_follows frame.2 w₁ h₁) (fun next w₂ h₂ => ?_) fun _ _ h => h
    refine wp_ite (fun _ => h₂.stopped _) fun _ => ?_
    cases next.1 with
    | some nextLength =>
      dsimp only
      rw [wp_bind]
      refine wp_orThrow (fun decrypted _ => ?_) fun _ => h₂.stopped _
      rw [wp_bind]
      refine wp_mono (checkCancelled_follows h₂) (fun _ w₃ h₃ => ?_) fun _ _ h => h
      rw [wp_bind]
      refine wp_mono (BoundedDecoder.push_keeps following_invariant decoder decrypted.1 w₃ h₃)
        (fun decoder' w₄ h₄ => ?_) fun _ _ h => h
      exact ih _ _ _ _ w₄ h₄
    | none =>
      dsimp only
      rw [wp_bind]
      refine wp_orThrow (fun decrypted _ => ?_) fun _ => h₂.stopped _
      rw [wp_bind]
      refine wp_mono (checkCancelled_follows h₂) (fun _ w₃ h₃ => ?_) fun _ _ h => h
      exact wp_mono (BoundedDecoder.push_keeps following_invariant decoder decrypted w₃ h₃)
        (fun _ _ h₄ => h₄.toGoing) fun _ _ h => h

/-- **Opening an object**, whatever the source and the sink do. -/
theorem openObjectV1_follows (w : World (σ × List Exchange)) (hw : w.exchanges = []) :
    wp (openObjectV1 A R source.monitored sink.monitored context) w
      (fun _ w' => Going w'.exchanges) fun e w' => Stopped e w'.exchanges := by
  have hgoing : Going w.exchanges := by
    rw [hw]
    exact ⟨allowed_nil, List.not_mem_nil⟩
  rw [openObjectV1, wp_bind]
  unfold CheckedSource.new
  rw [wp_bind]
  refine wp_mono (checkCancelled_going hgoing) (fun _ w₁ h₁ => ?_) fun _ _ h => h
  have hstart : Following { bytes := 0, eof := false } w₁.exchanges := by
    rw [hw, List.nil_append] at h₁
    rw [h₁]
    refine ⟨⟨(allowed_nil.concat List.not_mem_nil : Allowed _ ([] ++ [_])), by simp⟩, rfl,
      Nat.zero_le _, fun _ exchange hmem => ?_⟩
    rw [List.mem_singleton.mp hmem]
    exact Bool.false_ne_true
  rw [wp_pure]
  unfold BoundedDecoder.new
  simp only [wp_bind]
  refine wp_orThrow (fun decoder _ => ?_) fun _ => hstart.stopped _
  refine wp_orThrow (fun decoder' _ => ?_) fun _ => hstart.stopped _
  rw [wp_pure]
  unfold authenticateEnvelope
  simp only [wp_bind]
  refine wp_mono (readExact_follows envelopeHeaderBytes _ w₁ hstart) (fun header w₂ h₂ => ?_)
    fun _ _ h => h
  refine wp_ofResult (fun noncePrefix _ => ?_) fun _ _ => h₂.stopped _
  refine wp_mono (nextLength_follows header.2 w₂ h₂) (fun first w₃ h₃ => ?_) fun _ _ h => h
  refine wp_orThrow (fun length _ => ?_) fun _ => h₃.stopped _
  refine wp_mono (authenticateLoop_follows A R context _ first.2 _ _ length w₃ h₃)
    (fun decoder'' w₄ h₄ => ?_) fun _ _ h => h
  refine wp_mono (checkCancelled_going h₄) (fun _ w₅ h₅ => ?_) fun _ _ h => h
  have h₅' : Going w₅.exchanges := by
    rw [h₅]
    exact h₄.polled
  exact wp_ofResult (fun _ _ => h₅') fun e _ => h₅'.stopped e

/-! ## How often the source is read -/

theorem checkCancelled_reads : wp (checkCancelled source.monitored) w
    (fun _ w' => readsOf w'.exchanges = readsOf w.exchanges)
    fun _ w' => readsOf w'.exchanges = readsOf w.exchanges := by
  unfold checkCancelled
  rw [wp_bind]
  apply wp_monitored_cancelled
  intro answer w' hw'
  have hsame : readsOf w'.exchanges = readsOf w.exchanges := by
    simp [hw', readsOf, Exchange.isRead]
  exact wp_ite (fun _ => hsame) fun _ => hsame

theorem read_reads (input : CheckedSource) (n : ℕ) : wp (input.read source.monitored n) w
    (fun _ w' => readsOf w'.exchanges ≤ readsOf w.exchanges + 1)
    fun _ w' => readsOf w'.exchanges ≤ readsOf w.exchanges + 1 := by
  unfold CheckedSource.read
  rw [wp_bind]
  refine wp_mono checkCancelled_reads (fun _ w₁ h₁ => ?_) fun _ _ h => by omega
  refine wp_ite (fun _ => by rw [wp_pure]; omega) fun _ => ?_
  rw [wp_bind]
  have hone : ∀ (w' : World (σ × List Exchange)) capacity result,
      w'.exchanges = w₁.exchanges ++ [.read capacity result] →
      readsOf w'.exchanges = readsOf w₁.exchanges + 1 := by
    intro w' capacity result hw'
    simp [hw', readsOf, Exchange.isRead]
  apply wp_monitored_read
  · intro data w₂ h₂
    have h₂ := hone w₂ _ _ h₂
    rw [wp_bind]
    refine wp_mono checkCancelled_reads (fun _ w₃ h₃ => ?_) fun _ _ h => by omega
    have hle : readsOf w₃.exchanges ≤ readsOf w.exchanges + 1 := by omega
    exact wp_ite (fun _ => hle) fun _ => wp_ite (fun _ => hle) fun _ => hle
  · intro e w₂ h₂
    have h₂ := hone w₂ _ _ h₂
    omega

/-- Every read but the last yields a byte. -/
theorem readExact_reads (n : ℕ) (input : CheckedSource) (w : World (σ × List Exchange)) :
    wp (input.readExact source.monitored n) w
      (fun _ w' => readsOf w'.exchanges ≤ readsOf w.exchanges + n)
      fun _ w' => readsOf w'.exchanges ≤ readsOf w.exchanges + n := by
  induction n using Nat.strong_induction_on generalizing input w with
  | _ n ih =>
    rw [CheckedSource.readExact]
    by_cases hn : n = 0
    · rw [dif_pos hn]
      exact Nat.le_add_right _ _
    rw [dif_neg hn, wp_bind]
    refine wp_mono (read_reads input n) (fun r w₁ h₁ => ?_) fun _ _ h => by omega
    by_cases hr : r.1 = []
    · rw [dif_pos hr, wp_throw]
      omega
    have hpos := List.length_pos_iff.mpr hr
    rw [dif_neg hr, wp_bind]
    refine wp_mono (ih _ (by omega) r.2 w₁) (fun _ w₂ h₂ => ?_) fun _ w₂ h₂ => ?_
    · rw [wp_pure]
      omega
    · omega

theorem nextLength_reads (input : CheckedSource) (w : World (σ × List Exchange)) :
    wp (input.nextLength source.monitored) w
      (fun _ w' => readsOf w'.exchanges ≤ readsOf w.exchanges + 4)
      fun _ w' => readsOf w'.exchanges ≤ readsOf w.exchanges + 4 := by
  unfold CheckedSource.nextLength
  rw [wp_bind]
  refine wp_mono (read_reads input 1) (fun first w₁ h₁ => ?_) fun _ _ h => by omega
  refine wp_ite (fun _ => by rw [wp_pure]; omega) fun _ => ?_
  rw [wp_bind]
  refine wp_mono (readExact_reads 3 first.2 w₁) (fun rest w₂ h₂ => ?_) fun _ _ h => by omega
  have hle : readsOf w₂.exchanges ≤ readsOf w.exchanges + 4 := by omega
  exact wp_ite (fun _ => hle) fun _ => hle

/-! ## The protocol -/

/-- What was accepted crosses the ciphertext limit by one byte at most. -/
theorem acceptedBytes_le (log : List Exchange)
    (h : Allowed (fun before exchange => exchange.Proper before) log) :
    acceptedBytes log ≤ maxCiphertextObjectBytesV1 + 1 := by
  induction log using List.reverseRecOn with
  | nil => exact Nat.zero_le _
  | append_singleton log exchange ih =>
    have hlast := h.getLast
    have hbefore := ih h.dropLast
    rw [acceptedBytes_append]
    cases exchange with
    | polled answer => exact hbefore
    | written chunk => exact hbefore
    | read capacity result =>
      obtain ⟨-, -, hmax, hcapacity, -⟩ := hlast
      have hle : (Exchange.read capacity result).accepted ≤ capacity := by
        cases result with
        | error e => exact Nat.zero_le _
        | ok data =>
          rw [Exchange.accepted]
          split_ifs with hdata
          · exact hdata
          · exact Nat.zero_le _
      omega

/-- After a poll that was answered with yes there is nothing. -/
theorem eq_nil_of_cancelled {before after : List Exchange}
    (h : Allowed (fun before exchange => exchange.Proper before) log)
    (hlog : log = before ++ .polled true :: after) : after = [] := by
  cases after with
  | nil => rfl
  | cons next after =>
    have hnext : next.Proper (before ++ [.polled true]) := by
      apply h _ _ after
      rw [hlog, List.append_assoc, List.singleton_append]
    have hmem : Exchange.polled true ∈ before ++ [.polled true] := by simp
    cases next with
    | polled answer => exact absurd hmem hnext
    | written chunk => exact absurd hmem hnext
    | read capacity result => exact absurd rfl (hnext.2.2.2.2 _ hmem)

/-- **The protocol of the source**, whatever source and sink do. The recording source sees what the
source sees. A read asks for at least a byte, for no more than a chunk, and for no more than what is
left of the ciphertext limit and one byte, where what is left is not negative; it comes after no read
that gave nothing, too much or an error, and after no poll answered with yes. The counter of the reader
stays within the limit. A poll answered with yes is the last exchange, and the result is then that the
caller has cancelled. `readExact` reads the source at most once for every byte. -/
theorem source_protocol (source : BackupByteSource σ) (sink : BackupByteSink σ) (foreign : σ) :
    let r := (openObjectV1 A R source.monitored sink.monitored context).run ⟨(foreign, []), []⟩
    let log := (final r).exchanges
    outcome r = outcome ((openObjectV1 A R source sink context).run ⟨foreign, []⟩) ∧
    (∀ before capacity result after, log = before ++ .read capacity result :: after →
      1 ≤ capacity ∧ capacity ≤ maxIoChunkBytesV1 ∧
      acceptedBytes before ≤ maxCiphertextObjectBytesV1 ∧
      capacity ≤ maxCiphertextObjectBytesV1 - acceptedBytes before + 1 ∧
      ∀ exchange ∈ before, ¬exchange.Ends) ∧
    acceptedBytes log ≤ maxCiphertextObjectBytesV1 + 1 ∧
    (∀ (input : CheckedSource) n w result w', input.bytes ≤ maxCiphertextObjectBytesV1 →
      (input.read source n).run w = .ok result w' →
        result.2.bytes ≤ maxCiphertextObjectBytesV1) ∧
    (∀ before after, log = before ++ .polled true :: after →
      outcome r = .error .cancelled ∧ after = []) ∧
    (∀ (input : CheckedSource) n w,
      readsOf (final ((input.readExact source.monitored n).run w)).exchanges ≤
        readsOf w.exchanges + n) ∧
    ∀ (input : CheckedSource) w,
      readsOf (final ((input.nextLength source.monitored).run w)).exchanges ≤
        readsOf w.exchanges + 4 := by
  intro r log
  obtain ⟨hproper, hcancelled⟩ : Allowed (fun before exchange => exchange.Proper before) log ∧
      (.polled true ∈ log → outcome r = .error .cancelled) := by
    apply result_of_wp (P := fun (result : Except BackupErrorCode Unit)
      (w : World (σ × List Exchange)) =>
        Allowed (fun before exchange => Exchange.Proper before exchange) w.exchanges ∧
          (.polled true ∈ w.exchanges → result = .error .cancelled))
    refine wp_mono (openObjectV1_follows A R context ⟨(foreign, []), []⟩ rfl)
      (fun _ w h => ?_) fun e w h => ?_
    · exact ⟨h.proper, fun hmem => absurd hmem h.notCancelled⟩
    · exact ⟨h.proper, fun hmem => congrArg _ (h.cancelled hmem)⟩
  refine ⟨?_, ?_, acceptedBytes_le log hproper, ?_, ?_, ?_, ?_⟩
  · exact (monitored_inStep.openObjectV1 A R context _ _ rfl).outcome_eq
  · intro before capacity result after hlog
    exact hproper before _ after hlog
  · intro input n w result w' hle hrun
    have hcounted := (wp_of_ok hrun).mp (read_counted source input n w)
    exact hcounted.2.2 hle
  · intro before after hlog
    have hmem : Exchange.polled true ∈ log := by simp [hlog]
    exact ⟨hcancelled hmem, eq_nil_of_cancelled hproper hlog⟩
  · intro input n w
    exact final_of_wp (P := fun w' : World (σ × List Exchange) =>
      readsOf w'.exchanges ≤ readsOf w.exchanges + n) (readExact_reads n input w)
  · intro input w
    exact final_of_wp (P := fun w' : World (σ × List Exchange) =>
      readsOf w'.exchanges ≤ readsOf w.exchanges + 4) (nextLength_reads input w)

end protocol

end KChat.Backup
