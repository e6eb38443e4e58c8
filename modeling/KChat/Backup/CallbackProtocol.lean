import KChat.Backup.Callbacks
import KChat.Backup.SourceProtocol

/-!
# What the bindings ask of the foreign objects

* `InTurn`: what may come after what, for source and sink of the core; `Orderly e log`: the record
  of a run that failed with `e`. `openObjectV1_orderly`, `sealLoop_orderly`,
  **`sealObjectV1_orderly`**.
* `CallbackEvent`: a call of a foreign object, with its reply; `CallbackEvent.exchange`: what the
  core sees of it; `CallbackEvent.Proper`: what may come after what.
* `Matches`: the foreign record and the record of the core agree; `sim_adapter_cancelled`,
  `sim_adapter_read`, `sim_adapter_write`: the adapters keep it so. `withAdapters_protocol`.
* **`openBackupObjectV1_protocol`**, **`sealBackupObjectV1_protocol`**.
-/

namespace KChat.Backup

open Lib

variable {σ δ κ μ α : Type}

/-! ## Source and sink of the core -/

/-- **What may come after `before`**: a read of at least a byte and at most a chunk, where nothing
has ended the reading; anything but a read, where no poll was answered with yes. -/
def Exchange.InTurn (before : List Exchange) : Exchange → Prop
  | .read capacity _ => 1 ≤ capacity ∧ capacity ≤ maxIoChunkBytesV1 ∧
      ∀ exchange ∈ before, ¬exchange.Ends
  | _ => .polled true ∉ before

/-- The record of a run in order. -/
def InSequence (log : List Exchange) : Prop :=
  Allowed (fun before exchange => exchange.InTurn before) log

/-- The record of a run that ended with a result or an error; no other error follows a poll that was
answered with yes. -/
structure Orderly (result : Except BackupErrorCode α) (log : List Exchange) : Prop where
  order : InSequence log
  cancelled : .polled true ∈ log → result = .error .cancelled

theorem Exchange.Proper.inTurn {before : List Exchange} {exchange : Exchange}
    (h : exchange.Proper before) : exchange.InTurn before := by
  cases exchange with
  | read capacity result => exact ⟨h.1, h.2.1, h.2.2.2.2⟩
  | polled answer => exact h
  | written chunk => exact h

theorem openObjectV1_orderly (A : StreamAead) (R : RawDecoder δ) (context : BackupObjectContextV1)
    {source : BackupByteSource σ} {sink : BackupByteSink σ} (w : World (σ × List Exchange))
    (hw : w.exchanges = []) : wp (openObjectV1 A R source.monitored sink.monitored context) w
      (fun a w' => Orderly (.ok a) w'.exchanges)
      fun e w' => Orderly (.error e : Except _ Unit) w'.exchanges := by
  refine wp_mono (openObjectV1_follows A R context w hw) (fun a w' h => ?_) fun e w' h => ?_
  · exact ⟨fun before exchange after hlog => (h.proper before exchange after hlog).inTurn,
      fun hmem => absurd hmem h.notCancelled⟩
  · exact ⟨fun before exchange after hlog => (h.proper before exchange after hlog).inTurn,
      fun hmem => congrArg _ (h.cancelled hmem)⟩

/-! ### Sealing -/

section sealing

variable {source : BackupByteSource σ} {sink : BackupByteSink σ} {w : World (σ × List Exchange)}

/-- The writer is at work: no poll was answered with yes. -/
structure Working (log : List Exchange) : Prop where
  order : InSequence log
  notCancelled : .polled true ∉ log

structure Reading (log : List Exchange) : Prop extends Working log where
  ends : ∀ exchange ∈ log, ¬exchange.Ends

theorem Working.orderly {log : List Exchange} (h : Working log)
    (result : Except BackupErrorCode α) :
    Orderly result log := ⟨h.order, fun hmem => absurd hmem h.notCancelled⟩

theorem Working.append {log : List Exchange} {exchange : Exchange} (h : Working log)
    (hturn : exchange.InTurn log) (hne : exchange ≠ .polled true) :
    Working (log ++ [exchange]) := by
  refine ⟨h.order.concat hturn, fun hmem => ?_⟩
  rcases List.mem_append.mp hmem with hmem | hmem
  · exact h.notCancelled hmem
  · exact hne (List.mem_singleton.mp hmem).symm

theorem Reading.append {log : List Exchange} {exchange : Exchange} (h : Reading log)
    (hturn : exchange.InTurn log) (hends : ¬exchange.Ends) : Reading (log ++ [exchange]) := by
  refine ⟨h.toWorking.append hturn fun heq => hends (heq ▸ rfl), fun other hmem => ?_⟩
  rcases List.mem_append.mp hmem with hmem | hmem
  · exact h.ends other hmem
  · exact List.mem_singleton.mp hmem ▸ hends

theorem write_working (chunk : Bytes) :
    Preserves (fun w => Working w.exchanges) (fun w => Working w.exchanges)
      (sink.monitored.write chunk) := by
  intro w hw
  have hnext : Working (w.exchanges ++ [.written chunk]) := hw.append hw.notCancelled (by simp)
  apply wp_monitored_write
  · intro w' hw'
    rwa [hw']
  · intro e w' hw'
    rwa [hw']

theorem write_reading (chunk : Bytes) :
    Preserves (fun w => Reading w.exchanges) (fun w => Reading w.exchanges)
      (sink.monitored.write chunk) := by
  intro w hw
  have hnext : Reading (w.exchanges ++ [.written chunk]) := hw.append hw.notCancelled id
  apply wp_monitored_write
  · intro w' hw'
    rwa [hw']
  · intro e w' hw'
    rwa [hw']

theorem cancelled_reading (h : Reading w.exchanges) : wp source.monitored.cancelled w
    (fun answer w' => if answer = true then
        Orderly (.error .cancelled : Except _ BackupObjectDescriptor) w'.exchanges
      else Reading w'.exchanges) fun _ _ => False := by
  apply wp_monitored_cancelled
  intro answer w' hw'
  cases answer with
  | true =>
    rw [if_pos rfl, hw']
    exact ⟨h.order.concat h.notCancelled, fun _ => rfl⟩
  | false =>
    rw [if_neg Bool.false_ne_true, hw']
    exact h.append h.notCancelled Bool.false_ne_true

/-- A read of a chunk: the reading goes on if it gave something that is not too much. -/
theorem read_reading (h : Reading w.exchanges) :
    wp (source.monitored.read maxIoChunkBytesV1) w
      (fun data w' => Working w'.exchanges ∧
        (data ≠ [] → data.length ≤ maxIoChunkBytesV1 → Reading w'.exchanges))
      fun _ w' => Working w'.exchanges := by
  have hturn : ∀ result, (Exchange.read maxIoChunkBytesV1 result).InTurn w.exchanges :=
    fun _ => ⟨by decide, le_rfl, h.ends⟩
  apply wp_monitored_read
  · intro data w' hw'
    rw [hw']
    refine ⟨h.toWorking.append (hturn _) (by simp), fun hne hle => ?_⟩
    exact h.append (hturn _) fun hends => hends.elim hne (not_lt.mpr hle)
  · intro e w' hw'
    rw [hw']
    exact h.toWorking.append (hturn _) (by simp)

variable (A : StreamAead) {κ : Type} (C : Compressor κ) (sha256 : Bytes → Bytes)

/-- A poll, between the reads and the end: the writer goes on if it was answered with no. -/
theorem cancelled_working (h : Working w.exchanges) : wp source.monitored.cancelled w
    (fun answer w' => if answer = true then
        Orderly (.error .cancelled : Except _ BackupObjectDescriptor) w'.exchanges
      else w'.exchanges = w.exchanges ++ [.polled false]) fun _ _ => False := by
  apply wp_monitored_cancelled
  intro answer w' hw'
  cases answer with
  | true =>
    rw [if_pos rfl, hw']
    exact ⟨h.order.concat h.notCancelled, fun _ => rfl⟩
  | false =>
    rw [if_neg Bool.false_ne_true, hw']

theorem sealLoop_orderly (rounds : ℕ) {writer : BackupObjectWriterV1 κ} (h : Reading w.exchanges) :
    wp (sealLoop A C sha256 source.monitored sink.monitored rounds writer) w
      (fun descriptor w' => Orderly (.ok descriptor) w'.exchanges)
      fun e w' => Orderly (.error e : Except _ BackupObjectDescriptor) w'.exchanges := by
  induction rounds generalizing writer w with
  | zero => exact h.toWorking.orderly _
  | succ rounds ih =>
    rw [sealLoop, wp_bind]
    refine wp_mono (cancelled_reading h) (fun answer w₁ h₁ => ?_) fun _ _ h => h.elim
    refine wp_ite (fun hyes => ?_) fun hno => ?_
    · rwa [if_pos hyes] at h₁
    rw [if_neg hno] at h₁
    rw [wp_bind]
    refine wp_mono (read_reading h₁) (fun data w₂ h₂ => ?_) fun _ _ h => h.orderly _
    obtain ⟨hworking, hreading⟩ := h₂
    refine wp_ite (fun _ => hworking.orderly _) fun hle => ?_
    rw [wp_bind]
    refine wp_mono (cancelled_working hworking) (fun answer w₃ h₃ => ?_) fun _ _ h => h.elim
    refine wp_ite (fun hyes => ?_) fun hno => ?_
    · rwa [if_pos hyes] at h₃
    rw [if_neg hno] at h₃
    refine wp_ite (fun _ => ?_) fun hne => ?_
    · have hlast : Working w₃.exchanges := by
        rw [h₃]
        exact hworking.append hworking.notCancelled (by simp)
      rw [wp_bind, wp_withSelf]
      exact wp_mono (finish_keeps write_working A C sha256 ⟨writer, w₃⟩ hlast)
        (fun _ _ h => Working.orderly h _) fun _ _ h => Working.orderly h _
    · have hnext : Reading w₃.exchanges := by
        rw [h₃]
        have hgoing := hreading hne (not_lt.mp hle)
        exact hgoing.append hgoing.notCancelled Bool.false_ne_true
      rw [wp_bind, wp_withSelf]
      exact wp_mono (writePlaintext_keeps write_reading A C data ⟨writer, w₃⟩ hnext)
        (fun _ _ h => ih h) fun _ _ h => h.toWorking.orderly _

/-- **Sealing an object** asks in order, whatever source and sink do. -/
theorem sealObjectV1_orderly (context : BackupObjectContextV1) (random : Option NoncePrefix)
    (hw : w.exchanges = []) :
    wp (sealObjectV1 A C sha256 source.monitored sink.monitored context random) w
      (fun descriptor w' => Orderly (.ok descriptor) w'.exchanges)
      fun e w' => Orderly (.error e : Except _ BackupObjectDescriptor) w'.exchanges := by
  have hstart : Reading w.exchanges := by
    rw [hw]
    exact ⟨⟨allowed_nil, List.not_mem_nil⟩, fun _ hmem => absurd hmem List.not_mem_nil⟩
  rw [sealObjectV1, wp_bind]
  refine wp_mono (cancelled_reading hstart) (fun answer w₁ h₁ => ?_) fun _ _ h => h.elim
  refine wp_ite (fun hyes => ?_) fun hno => ?_
  · rwa [if_pos hyes] at h₁
  rw [if_neg hno] at h₁
  rw [wp_bind]
  exact wp_mono (new_keeps write_reading C context random w₁ h₁)
    (fun writer w₂ h₂ => sealLoop_orderly A C sha256 _ h₂) fun _ _ h => h.toWorking.orderly _

end sealing

/-! ## The foreign objects -/

/-- A call of a foreign object, with its reply. -/
inductive CallbackEvent
  | polled (answer : Except BackupErrorCode Bool)
  | read (maximum : ℕ) (reply : Except BackupErrorCode Bytes)
  | written (chunk : Bytes)
  | released

namespace CallbackEvent

/-- What the core sees of a call, through the adapters. -/
def exchange : CallbackEvent → Option Exchange
  | polled (.ok answer) => some (.polled answer)
  | polled (.error _) => some (.polled true)
  | read maximum (.ok data) =>
    some (.read maximum (if maximum < data.length then .error .invalidState else .ok data))
  | read maximum (.error _) => some (.read maximum (.error .ioError))
  | written chunk => some (.written chunk)
  | released => none

/-- The caller has cancelled, or could not say whether. -/
def Stops : CallbackEvent → Prop
  | polled (.ok answer) => answer = true
  | polled (.error _) => True
  | _ => False

/-- After this nothing is read: the caller has stopped the run, or a read gave nothing, too much or
an error. -/
def Ends : CallbackEvent → Prop
  | read maximum (.ok data) => data = [] ∨ maximum < data.length
  | read _ (.error _) => True
  | event => event.Stops

/-- **What may come after `before`**, until the stream is released: a read of at least a byte and at
most a chunk, where nothing has ended the reading; anything but a read, where nothing has stopped
the run. -/
def Proper (before : List CallbackEvent) : CallbackEvent → Prop
  | read maximum _ => 1 ≤ maximum ∧ maximum ≤ maxIoChunkBytesV1 ∧ ∀ event ∈ before, ¬event.Ends
  | released => False
  | _ => ∀ event ∈ before, ¬event.Stops

theorem stops_iff {event : CallbackEvent} : event.Stops ↔ event.exchange = some (.polled true) := by
  cases event with
  | polled answer => cases answer <;> simp [Stops, exchange]
  | read maximum reply => cases reply <;> simp [Stops, exchange]
  | written chunk => simp [Stops, exchange]
  | released => simp [Stops, exchange]

theorem ends_iff {event : CallbackEvent} :
    event.Ends ↔ ∃ seen, event.exchange = some seen ∧ seen.Ends := by
  cases event with
  | polled answer => cases answer <;> simp [Ends, Stops, exchange, Exchange.Ends]
  | read maximum reply =>
    cases reply with
    | error e => simp [Ends, exchange, Exchange.Ends]
    | ok data =>
      simp only [Ends, exchange, Option.some.injEq, exists_eq_left']
      split_ifs with hlong
      · simp [Exchange.Ends, hlong]
      · simp [Exchange.Ends]
  | written chunk => simp [Ends, Stops, exchange, Exchange.Ends]
  | released => simp [Ends, Stops, exchange]

/-- **Order as the core sees it is order.** -/
theorem allowed_of_exchanges {log : List CallbackEvent} (h : InSequence (log.filterMap exchange))
    (hreleased : .released ∉ log) : Allowed (fun before event => event.Proper before) log := by
  rintro before event after rfl
  have hsplit : ∀ seen, event.exchange = some seen → seen.InTurn (before.filterMap exchange) := by
    intro seen hseen
    apply h _ _ (after.filterMap exchange)
    rw [List.filterMap_append, List.filterMap_cons_some hseen]
  have hstops : .polled true ∉ before.filterMap exchange → ∀ other ∈ before, ¬other.Stops :=
    fun hnone other hmem hstop => hnone (List.mem_filterMap.mpr ⟨other, hmem, stops_iff.mp hstop⟩)
  cases event with
  | polled answer =>
    cases answer with
    | ok answer => exact hstops (hsplit _ rfl)
    | error e => exact hstops (hsplit _ rfl)
  | written chunk => exact hstops (hsplit _ rfl)
  | released => exact hreleased (List.mem_append_right _ List.mem_cons_self)
  | read maximum reply =>
    obtain ⟨seen, hseen⟩ : ∃ result,
        (CallbackEvent.read maximum reply).exchange = some (.read maximum result) := by
      cases reply <;> exact ⟨_, rfl⟩
    obtain ⟨hpos, hle, hends⟩ := hsplit _ hseen
    refine ⟨hpos, hle, fun other hmem hend => ?_⟩
    obtain ⟨seen', hseen', hend'⟩ := ends_iff.mp hend
    exact hends seen' (List.mem_filterMap.mpr ⟨other, hmem, hseen'⟩) hend'

end CallbackEvent

def noted (event : Except BackupErrorCode α → CallbackEvent) (x : EStateM BackupErrorCode σ α) :
    EStateM BackupErrorCode (σ × List CallbackEvent) α := fun t =>
  match x.run t.1 with
  | .ok a s => .ok a (s, t.2 ++ [event (.ok a)])
  | .error e s => .error e (s, t.2 ++ [event (.error e)])

theorem run_noted_ok {event : Except BackupErrorCode α → CallbackEvent}
    {x : EStateM BackupErrorCode σ α} {s s' : σ} {log : List CallbackEvent} {a : α}
    (h : x.run s = .ok a s') :
    (noted event x).run (s, log) = .ok a (s', log ++ [event (.ok a)]) := by
  change noted event x (s, log) = _
  simp only [noted, h]

theorem run_noted_error {event : Except BackupErrorCode α → CallbackEvent}
    {x : EStateM BackupErrorCode σ α} {s s' : σ} {log : List CallbackEvent} {e : BackupErrorCode}
    (h : x.run s = .error e s') :
    (noted event x).run (s, log) = .error e (s', log ++ [event (.error e)]) := by
  change noted event x (s, log) = _
  simp only [noted, h]

def SourceCallbacks.monitored (source : SourceCallbacks σ) :
    SourceCallbacks (σ × List CallbackEvent) where
  readChunk maximum := noted (.read maximum) (source.readChunk maximum)
  isCancelled := noted .polled source.isCancelled

def BackupCiphertextSource.monitored (source : BackupCiphertextSource σ) :
    BackupCiphertextSource (σ × List CallbackEvent) where
  toSourceCallbacks := source.toSourceCallbacks.monitored
  releaseStream := noted (fun _ => .released) source.releaseStream

def SinkCallbacks.monitored (sink : SinkCallbacks σ) : SinkCallbacks (σ × List CallbackEvent) where
  writeChunk chunk := noted (fun _ => .written chunk) (sink.writeChunk chunk)

/-! ### The two records -/

/-- **The foreign record and the record of the core agree**, and the mark of the adapter says
whether a question has failed. -/
structure Matches (w : World ((σ × List CallbackEvent) × Bool))
    (v : World ((σ × Bool) × List Exchange)) : Prop where
  state : v.foreign.1 = (w.foreign.1.1, w.foreign.2)
  exchanges : v.exchanges = w.foreign.1.2.filterMap CallbackEvent.exchange
  flag : w.foreign.2 = true ↔ ∃ e, .polled (.error e) ∈ w.foreign.1.2
  unreleased : .released ∉ w.foreign.1.2
  delivered : v.delivered = w.delivered

section records

variable {source : SourceCallbacks σ} {sink : SinkCallbacks σ}

theorem Matches.append {w : World ((σ × List CallbackEvent) × Bool)}
    {v : World ((σ × Bool) × List Exchange)} (h : Matches w v) {event : CallbackEvent}
    {seen : Exchange} (hseen : event.exchange = some seen)
    (hfailed : ∀ e, event ≠ .polled (.error e))
    (s : σ) (d : List Bytes) :
    Matches { foreign := ((s, w.foreign.1.2 ++ [event]), w.foreign.2), delivered := d }
      { foreign := ((s, w.foreign.2), v.exchanges ++ [seen]), delivered := d } where
  state := rfl
  exchanges := by
    show v.exchanges ++ [seen] = _
    rw [h.exchanges, List.filterMap_append, List.filterMap_cons_some hseen, List.filterMap_nil]
  flag := by
    rw [h.flag]
    refine exists_congr fun e => ⟨List.mem_append_left _, fun hmem => ?_⟩
    rcases List.mem_append.mp hmem with hmem | hmem
    · exact hmem
    · exact absurd (List.mem_singleton.mp hmem).symm (hfailed e)
  unreleased := by
    intro hmem
    rcases List.mem_append.mp hmem with hmem | hmem
    · exact h.unreleased hmem
    · rw [← List.mem_singleton.mp hmem] at hseen
      cases hseen
  delivered := rfl

theorem Matches.failed {w : World ((σ × List CallbackEvent) × Bool)}
    {v : World ((σ × Bool) × List Exchange)} (h : Matches w v) (e : BackupErrorCode)
    (s : σ) (d : List Bytes) :
    Matches { foreign := ((s, w.foreign.1.2 ++ [.polled (.error e)]), true), delivered := d }
      { foreign := ((s, true), v.exchanges ++ [.polled true]), delivered := d } where
  state := rfl
  exchanges := by
    show v.exchanges ++ [.polled true] = _
    rw [h.exchanges, List.filterMap_append]
    rfl
  flag := ⟨fun _ => ⟨e, List.mem_append_right _ List.mem_cons_self⟩, fun _ => rfl⟩
  unreleased := by
    intro hmem
    rcases List.mem_append.mp hmem with hmem | hmem
    · exact h.unreleased hmem
    · cases List.mem_singleton.mp hmem
  delivered := rfl

theorem adapter_read_ok {s s' : σ} {flag : Bool} {capacity : ℕ} {data : Bytes}
    (h : (source.readChunk capacity).run s = .ok data s') (hlong : ¬capacity < data.length) :
    ((SourceAdapter source).readChunk capacity).run (s, flag) = .ok data (s', flag) := by
  refine (run_bind_ok (run_onCallbacks (t := (s, flag)) h)).trans ?_
  rw [if_neg hlong]
  rfl

theorem adapter_read_long {s s' : σ} {flag : Bool} {capacity : ℕ} {data : Bytes}
    (h : (source.readChunk capacity).run s = .ok data s') (hlong : capacity < data.length) :
    ((SourceAdapter source).readChunk capacity).run (s, flag) =
      .error .invalidState (s', flag) := by
  refine (run_bind_ok (run_onCallbacks (t := (s, flag)) h)).trans ?_
  rw [if_pos hlong]
  rfl

theorem adapter_read_error {s s' : σ} {flag : Bool} {capacity : ℕ} {e : BackupErrorCode}
    (h : (source.readChunk capacity).run s = .error e s') :
    ((SourceAdapter source).readChunk capacity).run (s, flag) = .error .ioError (s', flag) :=
  run_bind_error (run_mapError_error _ (run_zoom_error (t := (s, flag)) h))

theorem run_monitored_ok {core : BackupByteSource σ} {capacity : ℕ} {s s' : σ} {data : Bytes}
    {log : List Exchange} (h : (core.readChunk capacity).run s = .ok data s') :
    (core.monitored.readChunk capacity).run (s, log) =
      .ok data (s', log ++ [.read capacity (.ok data)]) := by
  change core.monitored.readChunk capacity (s, log) = _
  simp only [BackupByteSource.monitored, h]

theorem run_monitored_error {core : BackupByteSource σ} {capacity : ℕ} {s s' : σ}
    {e : BackupErrorCode} {log : List Exchange}
    (h : (core.readChunk capacity).run s = .error e s') :
    (core.monitored.readChunk capacity).run (s, log) =
      .error e (s', log ++ [.read capacity (.error e)]) := by
  change core.monitored.readChunk capacity (s, log) = _
  simp only [BackupByteSource.monitored, h]

/-! ### The adapters -/

theorem sim_adapter_cancelled : Sim Matches Matches (SourceAdapter source.monitored).cancelled
    (SourceAdapter source).monitored.cancelled := by
  rintro ⟨⟨⟨s, log⟩, flag⟩, d⟩ ⟨⟨⟨s', flag'⟩, exchanges⟩, d'⟩ h
  obtain ⟨rfl, rfl⟩ := Prod.mk.inj h.state
  obtain rfl : d' = d := h.delivered
  change Agree _ _ ((SourceAdapter source.monitored).cancelled _)
    ((SourceAdapter source).monitored.cancelled _)
  cases hrun : source.isCancelled.run s' with
  | ok answer s =>
    have hmonitored : source.monitored.isCancelled.run (s', log) =
        .ok answer (s, log ++ [.polled (.ok answer)]) := run_noted_ok hrun
    simp only [BackupByteSource.cancelled, BackupByteSource.monitored, SourceAdapter, hrun,
      hmonitored]
    exact .ok (h.append rfl (by simp) s d')
  | error e s =>
    have hmonitored : source.monitored.isCancelled.run (s', log) =
        .error e (s, log ++ [.polled (.error e)]) := run_noted_error hrun
    simp only [BackupByteSource.cancelled, BackupByteSource.monitored, SourceAdapter, hrun,
      hmonitored]
    exact .ok (h.failed e s d')

section runs

variable {s s' : σ} {log : List CallbackEvent} {flag : Bool} {d : List Bytes} {maximum : ℕ}
  {data chunk : Bytes} {e : BackupErrorCode}

theorem run_read_ok (h : (source.readChunk maximum).run s = .ok data s')
    (hlong : ¬maximum < data.length) : ((SourceAdapter source.monitored).read maximum).run
      { foreign := ((s, log), flag), delivered := d } =
        .ok data
          { foreign := ((s', log ++ [.read maximum (.ok data)]), flag), delivered := d } :=
  run_zoom_ok (adapter_read_ok (run_noted_ok h) hlong)

theorem run_read_long (h : (source.readChunk maximum).run s = .ok data s')
    (hlong : maximum < data.length) : ((SourceAdapter source.monitored).read maximum).run
      { foreign := ((s, log), flag), delivered := d } =
        .error .invalidState
          { foreign := ((s', log ++ [.read maximum (.ok data)]), flag), delivered := d } :=
  run_zoom_error (adapter_read_long (run_noted_ok h) hlong)

theorem run_read_error (h : (source.readChunk maximum).run s = .error e s') :
    ((SourceAdapter source.monitored).read maximum).run
      { foreign := ((s, log), flag), delivered := d } =
        .error .ioError
          { foreign := ((s', log ++ [.read maximum (.error e)]), flag), delivered := d } :=
  run_zoom_error (adapter_read_error (run_noted_error h))

theorem run_write_ok (h : (sink.writeChunk chunk).run s = .ok () s') :
    ((SinkAdapter.forward sink.monitored).write chunk).run
      { foreign := ((s, log), flag), delivered := d } =
        .ok () { foreign := ((s', log ++ [.written chunk]), flag), delivered := d ++ [chunk] } := by
  have hnoted : (sink.monitored.writeChunk chunk).run (s, log) =
      .ok () (s', log ++ [.written chunk]) := by
    show (noted (fun _ => CallbackEvent.written chunk) (sink.writeChunk chunk)).run (s, log) = _
    exact run_noted_ok h
  exact (run_bind_ok rfl).trans (run_zoom_ok (run_onCallbacks hnoted))

theorem run_write_error (h : (sink.writeChunk chunk).run s = .error e s') :
    ((SinkAdapter.forward sink.monitored).write chunk).run
      { foreign := ((s, log), flag), delivered := d } =
        .error .ioError
          { foreign := ((s', log ++ [.written chunk]), flag), delivered := d ++ [chunk] } := by
  have hnoted : (sink.monitored.writeChunk chunk).run (s, log) =
      .error e (s', log ++ [.written chunk]) := by
    show (noted (fun _ => CallbackEvent.written chunk) (sink.writeChunk chunk)).run (s, log) = _
    exact run_noted_error h
  exact (run_bind_ok rfl).trans (run_zoom_error (run_mapError_error _ (run_zoom_error hnoted)))

end runs

theorem sim_adapter_read (maximum : ℕ) : Sim Matches Matches
    ((SourceAdapter source.monitored).read maximum)
    ((SourceAdapter source).monitored.read maximum) := by
  rintro ⟨⟨⟨s, log⟩, flag⟩, d⟩ ⟨⟨⟨s', flag'⟩, exchanges⟩, d'⟩ h
  obtain ⟨rfl, rfl⟩ := Prod.mk.inj h.state
  obtain rfl : d' = d := h.delivered
  cases hrun : (source.readChunk maximum).run s' with
  | ok data s =>
    by_cases hlong : maximum < data.length
    · have hcore : ((SourceAdapter source).monitored.read maximum).run
          { foreign := ((s', flag'), exchanges), delivered := d' } = _ :=
        run_zoom_error (run_monitored_error (adapter_read_long hrun hlong))
      rw [run_read_long hrun hlong, hcore]
      refine .error (h.append ?_ (by simp) s d')
      rw [CallbackEvent.exchange, if_pos hlong]
    · have hcore : ((SourceAdapter source).monitored.read maximum).run
          { foreign := ((s', flag'), exchanges), delivered := d' } = _ :=
        run_zoom_ok (run_monitored_ok (adapter_read_ok hrun hlong))
      rw [run_read_ok hrun hlong, hcore]
      refine .ok (h.append ?_ (by simp) s d')
      rw [CallbackEvent.exchange, if_neg hlong]
  | error e s =>
    have hcore : ((SourceAdapter source).monitored.read maximum).run
        { foreign := ((s', flag'), exchanges), delivered := d' } = _ :=
      run_zoom_error (run_monitored_error (adapter_read_error hrun))
    rw [run_read_error hrun, hcore]
    exact .error (h.append rfl (by simp) s d')

theorem sim_adapter_write (chunk : Bytes) : Sim Matches Matches
    ((SinkAdapter.forward sink.monitored).write chunk)
    ((SinkAdapter.forward sink).monitored.write chunk) := by
  rintro ⟨⟨⟨s, log⟩, flag⟩, d⟩ ⟨⟨⟨s', flag'⟩, exchanges⟩, d'⟩ h
  obtain ⟨rfl, rfl⟩ := Prod.mk.inj h.state
  obtain rfl : d' = d := h.delivered
  have hseen : (CallbackEvent.written chunk).exchange = some (.written chunk) := rfl
  cases hrun : (sink.writeChunk chunk).run s' with
  | ok u s =>
    have hcore : ((SinkAdapter.forward sink).monitored.write chunk).run
        { foreign := ((s', flag'), exchanges), delivered := d' } = _ :=
      (run_bind_ok rfl).trans (run_zoom_ok ((run_bind_ok rfl).trans
        (run_zoom_ok (run_onCallbacks hrun))))
    rw [run_write_ok hrun, hcore]
    exact .ok (h.append hseen (by simp) s (d' ++ [chunk]))
  | error e s =>
    have hcore : ((SinkAdapter.forward sink).monitored.write chunk).run
        { foreign := ((s', flag'), exchanges), delivered := d' } = _ :=
      (run_bind_ok rfl).trans (run_zoom_error ((run_bind_ok rfl).trans
        (run_zoom_error (run_mapError_error _ (run_zoom_error hrun)))))
    rw [run_write_error hrun, hcore]
    exact .error (h.append hseen (by simp) s (d' ++ [chunk]))

/-- Without the record of the core, a read is a read. -/
theorem sim_monitored_read {core : BackupByteSource σ} (capacity : ℕ) :
    Sim (fun w v => eraseWorld w = v) (fun w v => eraseWorld w = v) (core.monitored.read capacity)
      (core.read capacity) := by
  rintro w _ rfl
  change Agree _ _ (core.monitored.read capacity w) (core.read capacity (eraseWorld w))
  simp only [zoom, BackupByteSource.read, onForeign, BackupByteSource.monitored, eraseWorld,
    EStateM.run]
  cases core.readChunk capacity w.foreign.1 with
  | ok data s => exact .ok rfl
  | error e s => exact .error rfl

end records

/-! ## The protocol of the bindings -/

/-- **The calls of a run of the core on adapters**, and its result. -/
structure Protocol (result : Except BackupErrorCode α) (log : List CallbackEvent) : Prop where
  order : Allowed (fun before event => event.Proper before) log
  failed : ∀ e, .polled (.error e) ∈ log → result = .error .ioError
  cancelled : .polled (.ok true) ∈ log → result = .error .cancelled

theorem protocol_nil (result : Except BackupErrorCode α) : Protocol result [] where
  order := allowed_nil
  failed _ hmem := absurd hmem List.not_mem_nil
  cancelled hmem := absurd hmem List.not_mem_nil

/-- After what stops a run there is nothing. -/
theorem CallbackEvent.Proper.not_stops {before : List CallbackEvent} {event other : CallbackEvent}
    (h : event.Proper before) (hmem : other ∈ before) : ¬other.Stops := by
  intro hstops
  have hends : other.Ends := by
    cases other with
    | read maximum reply => exact hstops.elim
    | polled answer => exact hstops
    | written chunk => exact hstops
    | released => exact hstops
  cases event with
  | read maximum reply => exact h.2.2 other hmem hends
  | polled answer => exact h other hmem hstops
  | written chunk => exact h other hmem hstops
  | released => exact h

/-- Only one call stops a run. -/
theorem eq_of_stops {log : List CallbackEvent} {event other : CallbackEvent}
    (h : Allowed (fun before event => event.Proper before) log) (hevent : event ∈ log)
    (hother : other ∈ log) (hstops : event.Stops) (hstops' : other.Stops) : event = other := by
  obtain ⟨before, after, rfl⟩ := List.append_of_mem hevent
  rcases List.mem_append.mp hother with hmem | hmem
  · exact absurd hstops' ((h before event after rfl).not_stops hmem)
  rcases List.mem_cons.mp hmem with rfl | hmem
  · rfl
  obtain ⟨middle, rest, rfl⟩ := List.append_of_mem hmem
  have hproper : other.Proper (before ++ event :: middle) :=
    h _ other rest (by rw [List.append_assoc, List.cons_append])
  exact absurd hstops (hproper.not_stops (by simp))

section run

variable {x : Call ((σ × List CallbackEvent) × Bool) α} {y : Call ((σ × Bool) × List Exchange) α}
  {z : Call (σ × Bool) α} {s : σ}

/-- What the records of the core say of the foreign objects. -/
theorem Matches.protocol {w : World ((σ × List CallbackEvent) × Bool)}
    {v : World ((σ × Bool) × List Exchange)} (h : Matches w v) {result : Except BackupErrorCode α}
    (horderly : Orderly result v.exchanges) :
    Protocol (if w.foreign.2 then .error .ioError else result) w.foreign.1.2 := by
  have hseq : InSequence (w.foreign.1.2.filterMap CallbackEvent.exchange) :=
    h.exchanges ▸ horderly.order
  have horder := CallbackEvent.allowed_of_exchanges hseq h.unreleased
  refine ⟨horder, fun e hmem => ?_, fun hmem => ?_⟩
  · rw [if_pos (h.flag.mpr ⟨e, hmem⟩)]
  · have hflag : w.foreign.2 ≠ true := by
      intro hflag
      obtain ⟨e, hfailed⟩ := h.flag.mp hflag
      cases eq_of_stops horder hmem hfailed rfl trivial
    have hpolled : Exchange.polled true ∈ v.exchanges := by
      rw [h.exchanges]
      exact List.mem_filterMap.mpr ⟨_, hmem, rfl⟩
    rw [if_neg hflag, horderly.cancelled hpolled]

theorem erase_start (s : σ) :
    eraseWorld ({ foreign := ((s, false), []), delivered := [] } :
      World ((σ × Bool) × List Exchange)) = { foreign := (s, false), delivered := [] } := rfl

theorem Matches.foreign_eq {w : World ((σ × List CallbackEvent) × Bool)}
    {v : World ((σ × Bool) × List Exchange)} {u : World (σ × Bool)} (h : Matches w v)
    (herase : eraseWorld v = u) : (w.foreign.1.1, w.foreign.2) = u.foreign := by
  rw [← h.state, ← herase]
  rfl

/-- **A run of the core on adapters**: recorded or not, it ends alike; and the record keeps the
protocol. -/
theorem withAdapters_protocol (hx : Sim Matches Matches x y)
    (hz : Sim (fun v u => eraseWorld v = u) (fun v u => eraseWorld v = u) y z)
    (hy : wp y { foreign := ((s, false), []), delivered := [] }
      (fun a v => Orderly (.ok a) v.exchanges)
      fun e v => Orderly (.error e : Except _ α) v.exchanges) :
    Agree (fun t u => t.1 = u) (fun t u => t.1 = u) ((withAdapters x).run (s, []))
      ((withAdapters z).run s) ∧
    Protocol (outcome ((withAdapters x).run (s, []))) (final ((withAdapters x).run (s, []))).2 := by
  have hstart : Matches ({ foreign := ((s, []), false), delivered := [] } :
      World ((σ × List CallbackEvent) × Bool)) { foreign := ((s, false), []), delivered := [] } :=
    ⟨rfl, rfl, by simp, List.not_mem_nil, rfl⟩
  have hxy := hx _ _ hstart
  have hyz := hz _ { foreign := (s, false), delivered := [] } (erase_start s)
  change Agree _ _ (withAdapters x (s, [])) (withAdapters z s) ∧
    Protocol (outcome (withAdapters x (s, []))) (final (withAdapters x (s, []))).2
  unfold withAdapters
  unfold wp at hy
  generalize x.run { foreign := ((s, []), false), delivered := [] } = rx,
    y.run { foreign := ((s, false), []), delivered := [] } = ry,
    z.run { foreign := (s, false), delivered := [] } = rz at hxy hyz hy ⊢
  cases hxy with
  | @ok a w v h =>
    cases hyz with | @ok _ _ u herase =>
    have hprotocol := h.protocol hy
    dsimp only
    rw [← h.foreign_eq herase]
    cases hflag : w.foreign.2 with
    | true => exact ⟨.error rfl, by simpa [hflag, outcome, final] using hprotocol⟩
    | false => exact ⟨.ok rfl, by simpa [hflag, outcome, final] using hprotocol⟩
  | @error e w v h =>
    cases hyz with | @error _ _ u herase =>
    have hprotocol := h.protocol hy
    dsimp only
    rw [← h.foreign_eq herase]
    refine ⟨.error rfl, ?_⟩
    cases hflag : w.foreign.2 with
    | true => simpa [hflag, outcome, final] using hprotocol
    | false => simpa [hflag, outcome, final] using hprotocol

end run

/-! ### Opening -/

theorem ofResult_ok_bind {ε τ β : Type} (a : α) (f : α → EStateM ε τ β) :
    ofResult (.ok a) >>= f = f a := rfl

/-- A run that releases its stream ends as without, and the release comes last. -/
theorem releasing_run (release : EStateM BackupErrorCode σ Unit) (x : EStateM BackupErrorCode σ α)
    (s : σ) : outcome ((releasing release x).run s) = outcome (x.run s) ∧
      final ((releasing release x).run s) = final (release.run (final (x.run s))) := by
  refine result_of_wp
    (P := fun o t => o = outcome (x.run s) ∧ t = final (release.run (final (x.run s)))) ?_
  rw [wp_releasing]
  cases hx : x.run s with
  | ok a t => exact (wp_of_ok hx).mpr ⟨rfl, rfl⟩
  | error e t => exact (wp_of_error hx).mpr ⟨rfl, rfl⟩

/-- A release leaves its record whether it fails or not. -/
theorem final_noted_released (release : EStateM BackupErrorCode σ Unit) (s : σ)
    (log : List CallbackEvent) :
    final ((noted (fun _ => .released) release).run (s, log)) =
      (final (release.run s), log ++ [.released]) := by
  cases hrun : release.run s with
  | ok a s' => rw [run_noted_ok hrun]; rfl
  | error e s' => rw [run_noted_error hrun]; rfl

variable (A : StreamAead) (s : σ)

/-- The core on the adapters of foreign objects that are recorded. -/
theorem openAdapters_protocol (R : RawDecoder δ) (context : BackupObjectContextV1)
    (source : SourceCallbacks σ) (sink : SinkCallbacks σ) :
    Agree (fun t u => t.1 = u) (fun t u => t.1 = u)
      ((withAdapters (openObjectV1 A R (SourceAdapter source.monitored)
        (SinkAdapter sink.monitored) context)).run (s, []))
      ((withAdapters (openObjectV1 A R (SourceAdapter source) (SinkAdapter sink) context)).run s) ∧
    Protocol
      (outcome ((withAdapters (openObjectV1 A R (SourceAdapter source.monitored)
        (SinkAdapter sink.monitored) context)).run (s, [])))
      (final ((withAdapters (openObjectV1 A R (SourceAdapter source.monitored)
        (SinkAdapter sink.monitored) context)).run (s, []))).2 := by
  have hmatches : InStep Matches Matches (SourceAdapter source.monitored)
      (SinkAdapter.forward sink.monitored) (SourceAdapter source).monitored
      (SinkAdapter.forward sink).monitored :=
    inStep_of_reads (fun _ _ h => h) sim_adapter_cancelled sim_adapter_read sim_adapter_write
  simp only [SinkAdapter, openObjectV1_unguarded]
  apply withAdapters_protocol (hmatches.openObjectV1 A R context)
    (monitored_inStep.openObjectV1 A R context)
  exact wp_mono (openObjectV1_orderly A R context _ rfl) (fun _ _ h => h)
    fun _ _ h => ⟨h.order, h.cancelled⟩

/-- **Opening a backup object through the bindings**, whatever the foreign objects do. The calls are
recorded beside the run, and change nothing. The stream is released once, at the end of every run;
before that nothing is read after the caller has stopped the run or a read gave nothing, too much or
an error, no read asks for more than a chunk, and nothing but the release comes after what stopped
the run. A run that the caller has cancelled fails with that, and one whose question has failed with
an I/O error. Nothing is asked for an account or a chunk that is refused. -/
theorem openBackupObjectV1_protocol (P : Primitives μ) (R : RawDecoder δ) (key : BackupMasterKey)
    (accountId : String) (chunkId : Bytes) (source : BackupCiphertextSource σ)
    (sink : BackupPlaintextSink σ) :
    let r := (openBackupObjectV1 P A R key accountId chunkId source.monitored sink.monitored).run
      (s, [])
    let plain := (openBackupObjectV1 P A R key accountId chunkId source sink).run s
    outcome r = outcome plain ∧ (final r).1 = final plain ∧
      ∃ log, (final r).2 = log ++ [.released] ∧ Protocol (outcome r) log ∧
        ∀ e, (key.deriveBackupId P accountId >>= fun backupId =>
          key.createObjectContext P accountId backupId chunkId) = .error e →
            log = [] ∧ outcome r = .error e := by
  dsimp only
  unfold openBackupObjectV1
  rw [(releasing_run _ _ _).1, (releasing_run _ _ _).1, (releasing_run _ _ _).2,
    (releasing_run _ _ _).2]
  change _ ∧ (final ((noted (fun _ => CallbackEvent.released) source.releaseStream).run _)).1 = _ ∧
    ∃ log, (final ((noted (fun _ => CallbackEvent.released) source.releaseStream).run _)).2 = _ ∧ _
  rw [final_noted_released]
  cases key.deriveBackupId P accountId with
  | error e =>
    exact ⟨rfl, rfl, [], rfl, protocol_nil _, fun _ h => ⟨rfl, congrArg _ (Except.error.inj h)⟩⟩
  | ok backupId =>
    simp only [ofResult_ok_bind]
    have hcontext : (Except.ok backupId >>= fun backupId =>
        key.createObjectContext P accountId backupId chunkId) =
      key.createObjectContext P accountId backupId chunkId := rfl
    rw [hcontext]
    cases key.createObjectContext P accountId backupId chunkId with
    | error e =>
      exact ⟨rfl, rfl, [], rfl, protocol_nil _, fun _ h => ⟨rfl, congrArg _ (Except.error.inj h)⟩⟩
    | ok context =>
      simp only [ofResult_ok_bind]
      obtain ⟨hagree, hprotocol⟩ :=
        openAdapters_protocol A s R context source.toSourceCallbacks sink
      refine ⟨hagree.outcome_eq, ?_, _, rfl, hprotocol, fun _ h => (by cases h)⟩
      exact congrArg (fun u => final (source.releaseStream.run u)) (hagree.final_rel fun _ _ h => h)

/-! ### Sealing -/

variable (C : Compressor κ) (sha256 : Bytes → Bytes) (random : Option NoncePrefix)
  (context : BackupObjectContextV1)

theorem sealAdapters_protocol (source : SourceCallbacks σ) (sink : SinkCallbacks σ) :
    Agree (fun t u => t.1 = u) (fun t u => t.1 = u)
      ((withAdapters (sealObjectV1 A C sha256 (SourceAdapter source.monitored)
        (SinkAdapter sink.monitored) context random)).run (s, []))
      ((withAdapters (sealObjectV1 A C sha256 (SourceAdapter source) (SinkAdapter sink) context
        random)).run s) ∧
    Protocol
      (outcome ((withAdapters (sealObjectV1 A C sha256 (SourceAdapter source.monitored)
        (SinkAdapter sink.monitored) context random)).run (s, [])))
      (final ((withAdapters (sealObjectV1 A C sha256 (SourceAdapter source.monitored)
        (SinkAdapter sink.monitored) context random)).run (s, []))).2 := by
  have hrecord : InStep (fun v u => eraseWorld v = u) (fun v u => eraseWorld v = u)
      (SourceAdapter source).monitored (SinkAdapter.forward sink).monitored (SourceAdapter source)
      (SinkAdapter.forward sink) := monitored_inStep
  simp only [SinkAdapter, sealObjectV1_unguarded]
  apply withAdapters_protocol
    (sim_sealObjectV1 sim_adapter_write A C sha256 sim_adapter_cancelled sim_adapter_read context
      random)
    (sim_sealObjectV1 hrecord.write A C sha256 hrecord.cancelled sim_monitored_read context random)
  exact sealObjectV1_orderly A C sha256 context random rfl

theorem protocol_map {α β : Type} {x : EStateM BackupErrorCode (σ × List CallbackEvent) α}
    {z : EStateM BackupErrorCode σ α} {t : σ × List CallbackEvent} {s : σ} (f : α → β)
    (h : Agree (fun t u => t.1 = u) (fun t u => t.1 = u) (x.run t) (z.run s))
    (hprotocol : Protocol (outcome (x.run t)) (final (x.run t)).2) :
    outcome ((do let a ← x; return f a).run t) = outcome ((do let a ← z; return f a).run s) ∧
      (final ((do let a ← x; return f a).run t)).1 = final ((do let a ← z; return f a).run s) ∧
      Protocol (outcome ((do let a ← x; return f a).run t))
        (final ((do let a ← x; return f a).run t)).2 := by
  generalize hx : x.run t = r, hz : z.run s = r' at h hprotocol
  cases h with
  | ok h =>
    have hx' : (do let a ← x; return f a : EStateM _ _ _).run t = _ := run_bind_ok hx
    have hz' : (do let a ← z; return f a : EStateM _ _ _).run s = _ := run_bind_ok hz
    rw [hx', hz']
    refine ⟨rfl, h, hprotocol.order, fun e hmem => ?_, fun hmem => ?_⟩
    · cases hprotocol.failed e hmem
    · cases hprotocol.cancelled hmem
  | error h =>
    have hx' : (do let a ← x; return f a : EStateM _ _ _).run t = _ := run_bind_error hx
    have hz' : (do let a ← z; return f a : EStateM _ _ _).run s = _ := run_bind_error hz
    rw [hx', hz']
    refine ⟨rfl, h, hprotocol.order, fun e hmem => ?_, fun hmem => ?_⟩
    · rw [Except.error.inj (hprotocol.failed e hmem)]
      rfl
    · rw [Except.error.inj (hprotocol.cancelled hmem)]
      rfl

/-- **Sealing a backup object through the bindings**, whatever the foreign objects do. The calls are
recorded beside the run, and change nothing; they keep the same order as those of a run that opens
one, and a run that the caller has cancelled or whose question has failed fails in the same way. -/
theorem sealBackupObjectV1_protocol (source : BackupPlaintextSource σ)
    (sink : BackupCiphertextSink σ) :
    let r := (sealBackupObjectV1 A C sha256 random context source.monitored sink.monitored).run
      (s, [])
    let plain := (sealBackupObjectV1 A C sha256 random context source sink).run s
    outcome r = outcome plain ∧ (final r).1 = final plain ∧
      Protocol (outcome r) (final r).2 := by
  obtain ⟨hagree, hprotocol⟩ := sealAdapters_protocol A s C sha256 random context source sink
  exact protocol_map BackupObjectMetadata.ofDescriptor hagree hprotocol

end KChat.Backup
