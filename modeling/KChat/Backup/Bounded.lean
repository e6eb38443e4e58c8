import KChat.Backup.Compression
import KChat.Lib.Record
import KChat.Lib.StoredZstd

/-!
# The life of a bounded decoder

The decoder is pushed slice after slice, with callbacks that may do anything, and it lives on when a
push fails. What it asks of the raw decoder and what it emits is recorded.

* `Bounded.push`, `Bounded.pushAll`: pushes, the decoder changed in place; `Event`: what they do.
* `Kept`: what holds of decoder and events at any time; `decodeLoop_kept`, **`pushAll_kept`**;
  `decodeLoop_runs`: how often one call of `decode` runs the raw decoder.
* `Follows`; **`push_follows`**: a push does what it does on a decoder that is dropped after a failure.
* **`bounded_decompression`**; **`not_finished_once`**: a frame with a byte behind it is refused, and
  can be finished.
-/

namespace KChat.Backup

open Lib

variable {σ δ : Type}

/-! ## What a decoder does -/

/-- A run of the raw decoder from a total on, with a capacity, on an input; or a chunk that is
emitted. -/
inductive Event (δ : Type)
  | ran (total capacity : ℕ) (input : Bytes) (status : Option (RawStatus δ))
  | emitted (chunk : Bytes)

namespace Event

def consumed : Event δ → Bytes
  | ran _ _ input (some status) => input.take status.bytesRead
  | _ => []

def emittedBytes : Event δ → Bytes
  | emitted chunk => chunk
  | _ => []

def isRun : Event δ → Bool
  | ran _ _ _ _ => true
  | emitted _ => false

def Completes : Event δ → Prop
  | ran _ _ _ (some status) => status.remaining = 0
  | _ => False

/-- **What holds of every event.** A run starts from a total within the limit, and its capacity
lets the limit be crossed by one byte at most. A chunk is not empty, it is what the run just before
has written, and that run did not cross the limit. -/
def Good (limit : ℕ) (before : List (Event δ)) : Event δ → Prop
  | ran total capacity _ _ => total ≤ limit ∧ capacity = min maxIoChunkBytesV1 (limit - total + 1) ∧
      1 ≤ capacity
  | emitted chunk => 1 ≤ chunk.length ∧ chunk.length ≤ maxIoChunkBytesV1 ∧
      ∃ earlier total capacity input status,
        before = earlier ++ [ran total capacity input (some status)] ∧ status.written = chunk ∧
        total + chunk.length ≤ limit

end Event

/-- The state of the callbacks, and the events so far. -/
structure Observed (δ σ : Type) where
  foreign : σ
  events : List (Event δ)

structure Callbacks (σ : Type) where
  emit : Bytes → EStateM BackupErrorCode σ Unit
  cancelled : EStateM BackupErrorCode σ Unit

namespace Bounded

abbrev Action (δ σ α : Type) : Type :=
  EStateM BackupErrorCode (Owning (BoundedDecoder δ) (Observed δ σ)) α

def calling {α : Type} (x : EStateM BackupErrorCode σ α) : Action δ σ α :=
  onWorld (zoom Observed.foreign (fun foreign w => { w with foreign := foreign }) x)

def record (event : Event δ) : Action δ σ Unit :=
  onWorld (modify fun w => { w with events := w.events ++ [event] })

def become (d : BoundedDecoder δ) : Action δ σ Unit := modifySelf fun _ => d

-- `afterError` is what a run of the raw decoder that fails leaves of it
variable (R : RawDecoder δ) (afterError : δ → Bytes → ℕ → δ) (callbacks : Callbacks σ)

def emit (chunk : Bytes) : Action δ σ Unit :=
  if chunk = [] then pure () else do
    record (.emitted chunk)
    calling (callbacks.emit chunk)

def decodeLoop (d : BoundedDecoder δ) (bytes : Bytes) : Action δ σ Unit := do
  calling callbacks.cancelled
  let capacity := min maxIoChunkBytesV1 (d.limit - d.total + 1)
  record (.ran d.total capacity bytes (R.runOnBuffers d.decoder bytes capacity))
  match h : R.runOnBuffers d.decoder bytes capacity with
  | none =>
    become { d with decoder := afterError d.decoder bytes capacity }
    throw .invalidCompressedData
  | some status =>
    let total := d.total + status.written.length
    if _htotal : total < 2 ^ 64 ∧ total ≤ d.limit then
      let d := { d with decoder := status.decoder, total := total }
      become d
      calling callbacks.cancelled
      emit callbacks status.written
      calling callbacks.cancelled
      let rest := bytes.drop status.bytesRead
      if status.remaining = 0 then
        become { d with complete := true }
        if rest = [] then return () else throw .invalidCompressedData
      else if _hidle : status.bytesRead = 0 ∧ status.written = [] then
        if rest = [] then return () else throw .invalidCompressedData
      else decodeLoop d rest
    else
      become { d with decoder := status.decoder }
      throw .resourceLimitExceeded
termination_by bytes.length + (d.limit - d.total)
decreasing_by
  have hread := R.bytesRead_le h
  rw [List.length_drop]
  by_cases hw : status.written = []
  · have : status.bytesRead ≠ 0 := fun h0 => _hidle ⟨h0, hw⟩
    simp only [hw, List.length_nil] at _htotal ⊢
    omega
  · have := List.length_pos_iff.mpr hw
    omega

def decode (bytes : Bytes) : Action δ σ Unit := do
  let d ← getSelf
  if d.complete then
    if bytes = [] then return () else throw .invalidCompressedData
  else decodeLoop R afterError callbacks d bytes

/-- The loop of `push`; what it leaves of the slice. -/
def pushHeader : Bytes → Action δ σ Bytes
  | [] => return []
  | b :: bytes => do
    let d ← getSelf
    if d.headerChecked then
      return b :: bytes
    let header := d.header ++ [b]
    become { d with header := header }
    if ← ofResult (checkHeader header) then
      become { d with header := [], headerChecked := true }
      decode R afterError callbacks header
      pushHeader bytes
    else
      pushHeader bytes

def push (bytes : Bytes) : Action δ σ Unit := do
  let rest ← pushHeader R afterError callbacks bytes
  if (← getSelf).headerChecked then
    decode R afterError callbacks rest

/-- Slice after slice, each with callbacks of its own, whether or not a push fails. -/
def pushAll : List (Bytes × Callbacks σ) → Action δ σ (List (Except BackupErrorCode Unit))
  | [] => return []
  | (bytes, callbacks) :: pushes => do
    let result ← attempt (push R afterError callbacks bytes)
    return result :: (← pushAll pushes)

/-! ## What holds at any time -/

/-- The end of the frame was reported when all of `pushed` was read. -/
def Reported (pushed : Bytes) (events : List (Event δ)) : Prop :=
  ∃ before event after, events = before ++ event :: after ∧ event.Completes ∧
    (before ++ [event]).flatMap Event.consumed = pushed

/-- **What holds of a decoder and its events**; `quiet` says that no push has failed so far. -/
structure Kept (quiet : Prop) (pushed : Bytes) (d : BoundedDecoder δ) (events : List (Event δ)) :
    Prop where
  limit : d.limit = maxPlaintextObjectBytesV1
  total : d.total ≤ d.limit
  emitted : (events.flatMap Event.emittedBytes).length ≤ d.total
  good : ∀ before event after, events = before ++ event :: after → event.Good d.limit before
  completed : d.complete = true → ∃ event ∈ events, event.Completes
  checked : d.complete = true → d.headerChecked = true
  read : quiet → d.headerChecked = true → events.flatMap Event.consumed = pushed
  unread : quiet → d.headerChecked = false → d.header = pushed ∧
    events.flatMap Event.consumed = []
  reported : quiet → d.complete = true → Reported pushed events

section kept

variable {R : RawDecoder δ} {afterError : δ → Bytes → ℕ → δ} {callbacks : Callbacks σ}
  {quiet : Prop} {pushed bytes : Bytes} {d : BoundedDecoder δ} {events : List (Event δ)}
  {decoder : δ} {total : ℕ} {status : RawStatus δ}

theorem fresh_kept (decoder : δ) : Kept True [] (BoundedDecoder.fresh decoder) [] where
  limit := rfl
  total := Nat.zero_le _
  emitted := Nat.zero_le _
  good before event after h := by simp at h
  completed h := by simp [BoundedDecoder.fresh] at h
  checked h := by simp [BoundedDecoder.fresh] at h
  read _ h := by simp [BoundedDecoder.fresh] at h
  unread _ _ := ⟨rfl, rfl⟩
  reported _ h := by simp [BoundedDecoder.fresh] at h

theorem Kept.forget (h : Kept quiet pushed d events) : Kept False [] d events :=
  { h with
    read := fun hquiet => hquiet.elim
    unread := fun hquiet => hquiet.elim
    reported := fun hquiet => hquiet.elim }

def capacityOf (d : BoundedDecoder δ) : ℕ := min maxIoChunkBytesV1 (d.limit - d.total + 1)

theorem one_le_capacityOf (d : BoundedDecoder δ) : 1 ≤ capacityOf d := by
  unfold capacityOf maxIoChunkBytesV1
  omega

/-- The raw decoder has run, and nothing is emitted yet. -/
theorem Kept.ran (h : Kept quiet pushed d events) (hcomplete : d.complete = false)
    (hle : d.total ≤ total) (hlimit : total ≤ d.limit) (status : Option (RawStatus δ)) :
    Kept False [] { d with decoder := decoder, total := total }
      (events ++ [.ran d.total (capacityOf d) bytes status]) where
  limit := h.limit
  total := hlimit
  emitted := by
    have hemitted := h.emitted
    simp only [List.flatMap_append, List.flatMap_singleton, Event.emittedBytes, List.append_nil]
    omega
  good := Allowed.concat h.good ⟨h.total, rfl, one_le_capacityOf d⟩
  completed hc := by simp [hcomplete] at hc
  checked hc := by simp [hcomplete] at hc
  read hquiet := hquiet.elim
  unread hquiet := hquiet.elim
  reported hquiet := hquiet.elim

def emitting (chunk : Bytes) : List (Event δ) := if chunk = [] then [] else [.emitted chunk]

@[simp] theorem emitting_consumed (chunk : Bytes) :
    (emitting chunk : List (Event δ)).flatMap Event.consumed = [] := by
  unfold emitting
  split_ifs <;> rfl

@[simp] theorem emitting_emittedBytes (chunk : Bytes) :
    (emitting chunk : List (Event δ)).flatMap Event.emittedBytes = chunk := by
  unfold emitting
  split_ifs with h
  · rw [h]
    rfl
  · simp [Event.emittedBytes]

/-- What a run within the limit has written is emitted. -/
theorem Kept.emit (h : Kept quiet pushed d events) (hchecked : d.headerChecked = true)
    (hcomplete : d.complete = false)
    (hrun : R.runOnBuffers d.decoder bytes (capacityOf d) = some status)
    (hle : d.total + status.written.length ≤ d.limit) :
    Kept quiet (pushed ++ bytes.take status.bytesRead)
      { d with decoder := status.decoder, total := d.total + status.written.length }
      (events ++ [.ran d.total (capacityOf d) bytes (some status)] ++ emitting status.written) where
  limit := h.limit
  total := hle
  emitted := by
    have hemitted := h.emitted
    simp only [List.flatMap_append, List.flatMap_singleton, Event.emittedBytes, List.append_nil,
      emitting_emittedBytes, List.length_append]
    omega
  good := by
    have hfirst : (Event.ran d.total (capacityOf d) bytes (some status)).Good d.limit events :=
      ⟨h.total, rfl, one_le_capacityOf d⟩
    have hran := Allowed.concat h.good hfirst
    unfold emitting
    by_cases hnil : status.written = []
    · rw [if_pos hnil, List.append_nil]
      exact hran
    · rw [if_neg hnil]
      have hlength : status.written.length ≤ capacityOf d := R.written_length_le hrun
      have hchunk : status.written.length ≤ maxIoChunkBytesV1 := hlength.trans (min_le_left _ _)
      have hpos := List.length_pos_iff.mpr hnil
      exact Allowed.concat hran ⟨hpos, hchunk, events, _, _, _, status, rfl, rfl, hle⟩
  completed hc := by simp [hcomplete] at hc
  checked hc := by simp [hcomplete] at hc
  read hquiet _ := by
    have hread := h.read hquiet hchecked
    simp [List.flatMap_append, Event.consumed, hread]
  unread _ hc := by simp [hchecked] at hc
  reported _ hc := by simp [hcomplete] at hc

theorem Kept.complete (h : Kept quiet pushed d events) (hchecked : d.headerChecked = true)
    (hcomplete : d.complete = false)
    (hrun : R.runOnBuffers d.decoder bytes (capacityOf d) = some status)
    (hle : d.total + status.written.length ≤ d.limit) (hremaining : status.remaining = 0) :
    Kept quiet (pushed ++ bytes.take status.bytesRead)
      { d with decoder := status.decoder, total := d.total + status.written.length, complete := true }
      (events ++ [.ran d.total (capacityOf d) bytes (some status)] ++ emitting status.written) :=
  { h.emit hchecked hcomplete hrun hle with
    completed := fun _ => ⟨.ran d.total (capacityOf d) bytes (some status), by simp, hremaining⟩
    checked := fun _ => hchecked
    reported := fun hquiet _ => by
      refine ⟨events, .ran d.total (capacityOf d) bytes (some status), emitting status.written,
        by simp, hremaining, ?_⟩
      have hread := h.read hquiet hchecked
      simp [List.flatMap_append, Event.consumed, hread] }

/-! ## One call -/

variable {s : Owning (BoundedDecoder δ) (Observed δ σ)}

theorem wp_record {event : Event δ} {Q : Unit → Owning (BoundedDecoder δ) (Observed δ σ) → Prop}
    {E : BackupErrorCode → Owning (BoundedDecoder δ) (Observed δ σ) → Prop} :
    wp (record event) s Q E ↔ Q () ⟨s.self, s.world.foreign, s.world.events ++ [event]⟩ := Iff.rfl

theorem wp_become {Q : Unit → Owning (BoundedDecoder δ) (Observed δ σ) → Prop}
    {E : BackupErrorCode → Owning (BoundedDecoder δ) (Observed δ σ) → Prop} :
    wp (become d) s Q E ↔ Q () ⟨d, s.world⟩ := Iff.rfl

theorem wp_calling {α : Type} {x : EStateM BackupErrorCode σ α}
    {Q : α → Owning (BoundedDecoder δ) (Observed δ σ) → Prop}
    {E : BackupErrorCode → Owning (BoundedDecoder δ) (Observed δ σ) → Prop}
    (h : ∀ a foreign, Q a ⟨s.self, foreign, s.world.events⟩)
    (h' : ∀ e foreign, E e ⟨s.self, foreign, s.world.events⟩) : wp (calling x) s Q E := by
  unfold calling
  rw [wp_onWorld, wp_zoom]
  exact wp_mono (wp_true x s.world.foreign) (fun a foreign _ => h a foreign)
    fun e foreign _ => h' e foreign

theorem wp_emit {chunk : Bytes} {Q : Unit → Owning (BoundedDecoder δ) (Observed δ σ) → Prop}
    {E : BackupErrorCode → Owning (BoundedDecoder δ) (Observed δ σ) → Prop}
    (h : ∀ foreign, Q () ⟨s.self, foreign, s.world.events ++ emitting chunk⟩)
    (h' : ∀ e foreign, E e ⟨s.self, foreign, s.world.events ++ emitting chunk⟩) :
    wp (emit callbacks chunk) s Q E := by
  unfold emit
  unfold emitting at h h'
  by_cases hnil : chunk = []
  · rw [if_pos hnil]
    rw [if_pos hnil, List.append_nil] at h
    exact h s.world.foreign
  · rw [if_neg hnil, wp_bind]
    rw [if_neg hnil] at h h'
    exact wp_calling (fun _ foreign => h foreign) h'

def KeptAfter (quiet : Prop) (pushed : Bytes) (t : Owning (BoundedDecoder δ) (Observed δ σ)) : Prop :=
  Kept quiet pushed t.self t.world.events ∧ t.self.headerChecked = true

def KeptFailed (t : Owning (BoundedDecoder δ) (Observed δ σ)) : Prop :=
  Kept False [] t.self t.world.events

/-- **The loop**, whatever the raw decoder and the callbacks do. -/
theorem decodeLoop_kept (d : BoundedDecoder δ) (bytes : Bytes)
    (s : Owning (BoundedDecoder δ) (Observed δ σ)) (hself : s.self = d) (pushed : Bytes)
    (h : Kept quiet pushed d s.world.events) (hchecked : d.headerChecked = true)
    (hcomplete : d.complete = false) : wp (decodeLoop R afterError callbacks d bytes) s
      (fun _ => KeptAfter quiet (pushed ++ bytes)) fun _ => KeptFailed := by
  induction d, bytes using decodeLoop.induct R generalizing s pushed with
  | case1 d bytes ih =>
    obtain ⟨self, foreign, events⟩ := s
    obtain rfl : self = d := hself
    rw [decodeLoop, wp_bind]
    refine wp_calling (fun _ foreign => ?_) fun _ _ => h.forget
    dsimp only
    rw [wp_bind, wp_record]
    split
    · rw [wp_bind, wp_become]
      exact h.ran hcomplete le_rfl h.total _
    rename_i status hrun
    split
    · rename_i htotal
      have hemitted := h.emit hchecked hcomplete hrun htotal.2
      rw [← hrun] at hemitted
      rw [wp_bind, wp_become, wp_bind]
      refine wp_calling (fun _ foreign => ?_) fun _ foreign => ?_
      swap
      · exact h.ran hcomplete (Nat.le_add_right _ _) htotal.2 _
      rw [wp_bind]
      refine wp_emit (fun foreign => ?_) fun _ foreign => hemitted.forget
      rw [wp_bind]
      refine wp_calling (fun _ foreign => ?_) fun _ foreign => hemitted.forget
      dsimp only
      refine wp_ite (fun hremaining => ?_) fun _ => ?_
      · have hreported := h.complete hchecked hcomplete hrun htotal.2 hremaining
        rw [← hrun] at hreported
        rw [wp_bind, wp_become]
        refine wp_ite (fun hrest => ?_) fun _ => hreported.forget
        rw [List.take_of_length_le (List.drop_eq_nil_iff.mp hrest)] at hreported
        exact ⟨hreported, hchecked⟩
      · split
        · refine wp_ite (fun hrest => ?_) fun _ => hemitted.forget
          rw [List.take_of_length_le (List.drop_eq_nil_iff.mp hrest)] at hemitted
          exact ⟨hemitted, hchecked⟩
        · rename_i hidle
          have hpushed : pushed ++ bytes =
              pushed ++ bytes.take status.bytesRead ++ bytes.drop status.bytesRead := by
            rw [List.append_assoc, List.take_append_drop]
          rw [hpushed]
          exact ih status hrun htotal hidle _ rfl _ hemitted hchecked hcomplete
    · rw [wp_bind, wp_become]
      exact h.ran hcomplete le_rfl h.total _

theorem decode_kept (bytes : Bytes) (h : Kept quiet pushed s.self s.world.events)
    (hchecked : s.self.headerChecked = true) : wp (decode R afterError callbacks bytes) s
      (fun _ => KeptAfter quiet (pushed ++ bytes)) fun _ => KeptFailed := by
  unfold decode
  rw [wp_bind, wp_getSelf]
  refine wp_ite (fun _ => wp_ite (fun hnil => ?_) fun _ => h.forget) fun hcomplete => ?_
  · rw [hnil, List.append_nil]
    exact ⟨h, hchecked⟩
  · exact decodeLoop_kept s.self bytes s rfl pushed h hchecked (Bool.eq_false_iff.mpr hcomplete)

theorem Kept.append (h : Kept quiet pushed d events) (hchecked : d.headerChecked = false) (b : UInt8) :
    Kept quiet (pushed ++ [b]) { d with header := d.header ++ [b] } events :=
  { h with
    read := fun _ hc => by simp [hchecked] at hc
    unread := fun hquiet _ => by
      obtain ⟨hheader, hevents⟩ := h.unread hquiet hchecked
      exact ⟨congrArg (· ++ [b]) hheader, hevents⟩
    reported := fun _ hc => by simp [h.checked hc] at hchecked }

/-- The header is complete, and it is the first that is read. -/
theorem Kept.check (h : Kept quiet pushed d events) (hchecked : d.headerChecked = false) :
    Kept quiet [] { d with header := [], headerChecked := true } events :=
  { h with
    checked := fun _ => rfl
    read := fun hquiet _ => (h.unread hquiet hchecked).2
    unread := fun _ hc => by simp at hc
    reported := fun _ hc => by simp [h.checked hc] at hchecked }

theorem Kept.congr {pushed' : Bytes} (h : Kept quiet pushed d events) (heq : quiet → pushed = pushed') :
    Kept quiet pushed' d events :=
  { h with
    read := fun hquiet hc => (h.read hquiet hc).trans (heq hquiet)
    unread := fun hquiet hc => by
      rw [← heq hquiet]
      exact h.unread hquiet hc
    reported := fun hquiet hc => by
      rw [← heq hquiet]
      exact h.reported hquiet hc }

theorem pushHeader_kept (bytes : Bytes) (s : Owning (BoundedDecoder δ) (Observed δ σ)) (pushed : Bytes)
    (h : Kept quiet pushed s.self s.world.events) : wp (pushHeader R afterError callbacks bytes) s
      (fun rest t => ∃ done, bytes = done ++ rest ∧ Kept quiet (pushed ++ done) t.self t.world.events ∧
        (t.self.headerChecked = true ∨ rest = [])) fun _ => KeptFailed := by
  induction bytes generalizing s pushed with
  | nil => exact ⟨[], rfl, by rwa [List.append_nil], .inr rfl⟩
  | cons b bytes ih =>
    have hnext : ∀ t : Owning (BoundedDecoder δ) (Observed δ σ),
        Kept quiet (pushed ++ [b]) t.self t.world.events →
        wp (pushHeader R afterError callbacks bytes) t
          (fun rest u => ∃ done, b :: bytes = done ++ rest ∧
            Kept quiet (pushed ++ done) u.self u.world.events ∧
            (u.self.headerChecked = true ∨ rest = [])) fun _ => KeptFailed := by
      intro t ht
      refine wp_mono (ih t _ ht) ?_ fun _ _ h => h
      rintro rest u ⟨done, rfl, hu, hrest⟩
      rw [List.append_assoc, List.singleton_append] at hu
      exact ⟨b :: done, rfl, hu, hrest⟩
    rw [pushHeader, wp_bind, wp_getSelf]
    by_cases hchecked : s.self.headerChecked = true
    · rw [if_pos hchecked]
      exact ⟨[], rfl, by rwa [List.append_nil], .inl hchecked⟩
    · rw [if_neg hchecked]
      replace hchecked := Bool.eq_false_iff.mpr hchecked
      have happend := h.append hchecked b
      dsimp only
      rw [wp_bind, wp_become, wp_bind]
      refine wp_ofResult (fun complete _ => ?_) fun _ _ => happend.forget
      refine wp_ite (fun _ => ?_) fun _ => hnext _ happend
      rw [wp_bind, wp_become, wp_bind]
      have hheader : quiet → [] ++ (s.self.header ++ [b]) = pushed ++ [b] := by
        intro hquiet
        exact (happend.unread hquiet hchecked).1
      refine wp_mono (decode_kept _ (happend.check hchecked) rfl) (fun _ t ht => ?_) fun _ _ h => h
      exact hnext t (ht.1.congr hheader)

theorem push_kept (bytes : Bytes) (h : Kept quiet pushed s.self s.world.events) :
    wp (push R afterError callbacks bytes) s
      (fun _ t => Kept quiet (pushed ++ bytes) t.self t.world.events) fun _ => KeptFailed := by
  rw [push, wp_bind]
  refine wp_mono (pushHeader_kept bytes s pushed h) ?_ fun _ _ h => h
  rintro rest t ⟨done, rfl, ht, hrest⟩
  rw [wp_bind, wp_getSelf]
  refine wp_ite (fun hchecked => ?_) fun hchecked => ?_
  · refine wp_mono (decode_kept rest ht hchecked) (fun _ u hu => ?_) fun _ _ h => h
    rw [← List.append_assoc]
    exact hu.1
  · rw [hrest.resolve_left hchecked, List.append_nil]
    exact ht

theorem pushAll_kept (pushes : List (Bytes × Callbacks σ)) (quiet : Prop) (pushed : Bytes)
    (s : Owning (BoundedDecoder δ) (Observed δ σ)) (h : Kept quiet pushed s.self s.world.events) :
    wp (pushAll R afterError pushes) s
      (fun results t => Kept (quiet ∧ ∀ result ∈ results, result = .ok ())
        (pushed ++ (pushes.map Prod.fst).flatten) t.self t.world.events) fun _ _ => False := by
  induction pushes generalizing quiet pushed s with
  | nil =>
    rw [pushAll, wp_pure, List.map_nil, List.flatten_nil, List.append_nil]
    exact { h with
      read := fun hquiet => h.read hquiet.1
      unread := fun hquiet => h.unread hquiet.1
      reported := fun hquiet => h.reported hquiet.1 }
  | cons first pushes ih =>
    obtain ⟨bytes, callbacks⟩ := first
    rw [pushAll, wp_bind, wp_attempt]
    refine wp_mono (push_kept bytes h) (fun _ t ht => ?_) fun e t ht => ?_
    · rw [wp_bind]
      refine wp_mono (ih quiet _ t ht) (fun results u hu => ?_) fun _ _ h => h
      rw [wp_pure]
      have hall : (∀ result ∈ Except.ok () :: results, result = Except.ok ()) ↔
          ∀ result ∈ results, result = (Except.ok () : Except BackupErrorCode Unit) := by simp
      rw [hall, List.map_cons, List.flatten_cons, ← List.append_assoc]
      exact hu
    · rw [wp_bind]
      refine wp_mono (ih False _ t ht) (fun results u hu => ?_) fun _ _ h => h
      rw [wp_pure]
      have hfailed : ¬∀ result ∈ Except.error e :: results, result = Except.ok () := by simp
      exact { hu with
        read := fun hquiet => (hfailed hquiet.2).elim
        unread := fun hquiet => (hfailed hquiet.2).elim
        reported := fun hquiet => (hfailed hquiet.2).elim }

/-! ## How long a call takes -/

def runs (events : List (Event δ)) : ℕ := events.countP Event.isRun

@[simp] theorem runs_append_ran (total capacity : ℕ) (input : Bytes) (status : Option (RawStatus δ)) :
    runs (events ++ [.ran total capacity input status]) = runs events + 1 := by
  simp [runs, Event.isRun]

@[simp] theorem runs_append_emitting (chunk : Bytes) :
    runs (events ++ emitting chunk) = runs events := by
  unfold emitting
  split_ifs <;> simp [runs, Event.isRun]

/-- **A call of `decode` ends**: every run but the last reads a byte or writes one. -/
theorem decodeLoop_runs (d : BoundedDecoder δ) (bytes : Bytes)
    (s : Owning (BoundedDecoder δ) (Observed δ σ)) (hself : s.self = d) :
    wp (decodeLoop R afterError callbacks d bytes) s
      (fun _ t => runs t.world.events ≤
        runs s.world.events + (bytes.length + (d.limit - d.total) + 1))
      fun _ t => runs t.world.events ≤
        runs s.world.events + (bytes.length + (d.limit - d.total) + 1) := by
  induction d, bytes using decodeLoop.induct R generalizing s with
  | case1 d bytes ih =>
    rw [decodeLoop, wp_bind]
    refine wp_calling (fun _ foreign => ?_) fun _ _ => Nat.le_add_right _ _
    dsimp only
    rw [wp_bind, wp_record]
    have hone : ∀ event : Event δ, event.isRun = true → runs (s.world.events ++ [event]) ≤
        runs s.world.events + (bytes.length + (d.limit - d.total) + 1) := by
      intro event hevent
      simp only [runs, List.countP_append, List.countP_singleton, hevent, if_true]
      omega
    split
    · rw [wp_bind, wp_become]
      exact hone _ rfl
    rename_i status hrun
    split
    · rename_i htotal
      rw [wp_bind, wp_become, wp_bind]
      refine wp_calling (fun _ foreign => ?_) fun _ foreign => hone _ rfl
      have hemitted : runs (s.world.events ++ [.ran d.total (capacityOf d) bytes
          (R.runOnBuffers d.decoder bytes (capacityOf d))] ++ emitting status.written) ≤
            runs s.world.events + (bytes.length + (d.limit - d.total) + 1) := by
        rw [runs_append_emitting]
        exact hone _ rfl
      rw [wp_bind]
      refine wp_emit (fun foreign => ?_) fun _ foreign => hemitted
      rw [wp_bind]
      refine wp_calling (fun _ foreign => ?_) fun _ foreign => hemitted
      dsimp only
      refine wp_ite (fun _ => ?_) fun _ => ?_
      · rw [wp_bind, wp_become]
        exact wp_ite (fun _ => hemitted) fun _ => hemitted
      · split
        · exact wp_ite (fun _ => hemitted) fun _ => hemitted
        · rename_i hidle
          have hread := R.bytesRead_le hrun
          have hless : (bytes.drop status.bytesRead).length +
              (d.limit - (d.total + status.written.length)) < bytes.length + (d.limit - d.total) := by
            rw [List.length_drop]
            by_cases hw : status.written = []
            · have hne : status.bytesRead ≠ 0 := fun h0 => hidle ⟨h0, hw⟩
              simp only [hw, List.length_nil]
              omega
            · have hpos := List.length_pos_iff.mpr hw
              omega
          have hrest : ∀ n m : ℕ, n ≤ m + 1 + ((bytes.drop status.bytesRead).length +
              (d.limit - (d.total + status.written.length)) + 1) →
              n ≤ m + (bytes.length + (d.limit - d.total) + 1) := by
            intro n m hn
            omega
          refine wp_mono (ih status hrun htotal hidle _ rfl) (fun _ t ht => hrest _ _ ?_)
            fun _ t ht => hrest _ _ ?_
          · simp only [runs_append_emitting, runs_append_ran] at ht
            exact ht
          · simp only [runs_append_emitting, runs_append_ran] at ht
            exact ht
    · rw [wp_bind, wp_become]
      exact hone _ rfl

theorem decode_runs (bytes : Bytes) (s : Owning (BoundedDecoder δ) (Observed δ σ)) :
    runs (final ((decode R afterError callbacks bytes).run s)).world.events ≤
      runs s.world.events + (bytes.length + (s.self.limit - s.self.total) + 1) := by
  refine final_of_wp (P := fun t : Owning (BoundedDecoder δ) (Observed δ σ) =>
    runs t.world.events ≤ runs s.world.events +
      (bytes.length + (s.self.limit - s.self.total) + 1)) ?_
  unfold decode
  rw [wp_bind, wp_getSelf]
  refine wp_ite (fun _ => wp_ite (fun _ => Nat.le_add_right _ _) fun _ => Nat.le_add_right _ _)
    fun _ => ?_
  exact decodeLoop_runs s.self bytes s rfl

end kept

/-! ## The decoder that its caller drops -/

section follows

variable {R : RawDecoder δ} {afterError : δ → Bytes → ℕ → δ} {callbacks : Callbacks (World σ)}

/-- From the decoder `d` on, `x` does to the callbacks what `y` does, and `g` makes the result of `y`
of its own result and the decoder at the end. -/
def Follows {α β : Type} (g : α → BoundedDecoder δ → β) (x : Action δ (World σ) α)
    (d : BoundedDecoder δ) (y : Call σ β) : Prop :=
  ∀ w events, wp x ⟨d, w, events⟩ (fun a t => y.run w = .ok (g a t.self) t.world.foreign)
    fun e t => y.run w = .error e t.world.foreign

namespace Follows

variable {α α' β β' : Type} {g : α → BoundedDecoder δ → β} {g' : α' → BoundedDecoder δ → β'}
  {d d' : BoundedDecoder δ}

theorem pure (a : α) : Follows g (Pure.pure a : Action δ (World σ) α) d
    (Pure.pure (g a d) : Call σ β) := fun _ _ => rfl

theorem throw (e : BackupErrorCode) : Follows g (MonadExcept.throw e : Action δ (World σ) α) d
    (MonadExcept.throw e : Call σ β) := fun _ _ => rfl

theorem ite {p : Prop} [Decidable p] {x x' : Action δ (World σ) α} {y y' : Call σ β}
    (h : p → Follows g x d y) (h' : ¬p → Follows g x' d y') :
    Follows g (if p then x else x') d (if p then y else y') := by
  split_ifs with hp
  · exact h hp
  · exact h' hp

theorem bind {x : Action δ (World σ) α} {y : Call σ β} {k : α → Action δ (World σ) α'}
    {k' : β → Call σ β'} (h : Follows g x d y)
    (hk : ∀ a d', Follows g' (k a) d' (k' (g a d'))) : Follows g' (x >>= k) d (y >>= k') := by
  intro w events
  rw [wp_bind]
  refine wp_mono (h w events) (fun a t ht => ?_) fun e t ht => run_bind_error ht
  rw [run_bind_ok ht]
  exact hk a t.self t.world.foreign t.world.events

theorem calling_bind {x : EStateM BackupErrorCode (World σ) α'} {k : α' → Action δ (World σ) α}
    {k' : α' → Call σ β} (hk : ∀ a, Follows g (k a) d (k' a)) :
    Follows g (calling x >>= k) d (x >>= k') := by
  intro w events
  rw [wp_bind]
  unfold calling
  rw [wp_onWorld, wp_zoom]
  cases hrun : x.run w with
  | ok a w' =>
    rw [run_bind_ok hrun]
    exact (wp_of_ok hrun).mpr (hk a w' events)
  | error e w' => exact (wp_of_error hrun).mpr (run_bind_error hrun)

theorem record_bind {event : Event δ} {k : Unit → Action δ (World σ) α} {y : Call σ β}
    (h : Follows g (k ()) d y) : Follows g (record event >>= k) d y := by
  intro w events
  rw [wp_bind, wp_record]
  exact h w _

theorem become_bind {k : Unit → Action δ (World σ) α} {y : Call σ β} (h : Follows g (k ()) d' y) :
    Follows g (become d' >>= k) d y := by
  intro w events
  rw [wp_bind, wp_become]
  exact h w events

theorem getSelf_bind {k : BoundedDecoder δ → Action δ (World σ) α} {y : Call σ β}
    (h : Follows g (k d) d y) : Follows g (getSelf >>= k) d y := by
  intro w events
  rw [wp_bind, wp_getSelf]
  exact h w events

theorem ofResult_bind {r : Except BackupErrorCode α'} {k : α' → Action δ (World σ) α}
    {k' : α' → Call σ β} (hk : ∀ a, Follows g (k a) d (k' a)) :
    Follows g (ofResult r >>= k) d (ofResult r >>= k') := by
  cases r with
  | ok a => exact hk a
  | error e => exact throw e

end Follows

/-- The end of a round; `next` stands for the rounds that follow. -/
theorem afterEmit_follows {d : BoundedDecoder δ} {bytes : Bytes} {remaining bytesRead : ℕ}
    {written : Bytes} {next : Action δ (World σ) Unit} {next' : Call σ (BoundedDecoder δ)}
    (hnext : ¬(bytesRead = 0 ∧ written = []) → Follows (fun _ d' => d') next d next') :
    Follows (fun _ d' => d')
      (do
        calling callbacks.cancelled
        if remaining = 0 then
          become { d with complete := true }
          if bytes = [] then return () else throw .invalidCompressedData
        else if bytesRead = 0 ∧ written = [] then
          if bytes = [] then return () else throw .invalidCompressedData
        else next) d
      (do
        callbacks.cancelled
        if remaining = 0 then
          if bytes = [] then return { d with complete := true } else throw .invalidCompressedData
        else if bytesRead = 0 ∧ written = [] then
          if bytes = [] then return d else throw .invalidCompressedData
        else next') := by
  refine Follows.calling_bind fun _ => Follows.ite (fun _ => ?_) fun _ => Follows.ite (fun _ => ?_) hnext
  · exact Follows.become_bind (Follows.ite (fun _ => Follows.pure ()) fun _ => Follows.throw _)
  · exact Follows.ite (fun _ => Follows.pure ()) fun _ => Follows.throw _

/-- **The loop** does what it does on a decoder that is passed on. -/
theorem decodeLoop_follows (d : BoundedDecoder δ) (bytes : Bytes) :
    Follows (fun _ d' => d') (decodeLoop R afterError callbacks d bytes) d
      (BoundedDecoder.decodeLoop R callbacks.emit callbacks.cancelled d bytes) := by
  induction d, bytes using decodeLoop.induct R with
  | case1 d bytes ih =>
    rw [BoundedDecoder.decodeLoop]
    dsimp only
    split
    · rename_i hrun
      rw [decodeLoop]
      refine Follows.calling_bind fun _ => Follows.record_bind ?_
      split
      · exact Follows.become_bind (Follows.throw _)
      · rename_i hrun'
        cases hrun.symm.trans hrun'
    rename_i status hrun
    rw [decodeLoop]
    refine Follows.calling_bind fun _ => Follows.record_bind ?_
    split
    · rename_i hrun'
      cases hrun.symm.trans hrun'
    rename_i status' hrun'
    obtain rfl : status = status' := Option.some.inj (hrun.symm.trans hrun')
    by_cases htotal : d.total + status.written.length < 2 ^ 64 ∧
        d.total + status.written.length ≤ d.limit
    · rw [dif_pos htotal, dif_pos htotal]
      refine Follows.become_bind (Follows.calling_bind fun _ => ?_)
      unfold emit
      by_cases hnil : status.written = []
      · rw [if_pos hnil, if_neg (not_not.mpr hnil)]
        exact afterEmit_follows fun hidle => ih status hrun htotal hidle
      · rw [if_neg hnil, if_pos hnil, bind_assoc]
        refine Follows.record_bind (Follows.calling_bind fun _ => ?_)
        exact afterEmit_follows fun hidle => ih status hrun htotal hidle
    · rw [dif_neg htotal, dif_neg htotal]
      exact Follows.become_bind (Follows.throw _)

theorem decode_follows (d : BoundedDecoder δ) (bytes : Bytes) :
    Follows (fun _ d' => d') (decode R afterError callbacks bytes) d
      (BoundedDecoder.decode R callbacks.emit callbacks.cancelled d bytes) := by
  unfold decode BoundedDecoder.decode
  refine Follows.getSelf_bind (Follows.ite (fun _ => ?_) fun _ => decodeLoop_follows d bytes)
  exact Follows.ite (fun _ => Follows.pure ()) fun _ => Follows.throw _

theorem pushHeader_follows (d : BoundedDecoder δ) (bytes : Bytes) :
    Follows (fun rest d' => (d', rest)) (pushHeader R afterError callbacks bytes) d
      (BoundedDecoder.pushHeader R callbacks.emit callbacks.cancelled d bytes) := by
  induction bytes generalizing d with
  | nil => exact Follows.pure []
  | cons b bytes ih =>
    unfold pushHeader BoundedDecoder.pushHeader
    refine Follows.getSelf_bind (Follows.ite (fun _ => Follows.pure (b :: bytes)) fun _ => ?_)
    refine Follows.become_bind (Follows.ofResult_bind fun _ => Follows.ite (fun _ => ?_) fun _ => ih _)
    exact Follows.become_bind (Follows.bind (decode_follows _ _) fun _ d' => ih d')

/-- **A push** does what it does on a decoder that is passed on and dropped after a failure. -/
theorem push_follows (d : BoundedDecoder δ) (bytes : Bytes) :
    Follows (fun _ d' => d') (push R afterError callbacks bytes) d
      (BoundedDecoder.push R callbacks.emit callbacks.cancelled d bytes) := by
  unfold push BoundedDecoder.push
  refine Follows.bind (pushHeader_follows d bytes) fun rest d' => Follows.getSelf_bind ?_
  exact Follows.ite (fun _ => decode_follows d' rest) fun _ => Follows.pure ()

end follows

end Bounded

/-- **Decompression is bounded**, whatever the raw decoder and the callbacks do, and however often
the decoder is pushed: every run starts within the limit and every chunk comes from a run that does
not cross it; no more than 1 GiB is emitted; a call of `decode` ends; and the decoder can be finished
only if the end of the frame was reported, and, unless a push has failed, only if that was at the end
of what was pushed. -/
theorem bounded_decompression (R : RawDecoder δ) (afterError : δ → Bytes → ℕ → δ) (decoder : δ)
    (pushes : List (Bytes × Callbacks σ)) (foreign : σ) :
    let r := (Bounded.pushAll R afterError pushes).run ⟨BoundedDecoder.fresh decoder, foreign, []⟩
    (∀ before event after, (final r).world.events = before ++ event :: after →
      event.Good maxPlaintextObjectBytesV1 before) ∧
    ((final r).world.events.flatMap Event.emittedBytes).length ≤ maxPlaintextObjectBytesV1 ∧
    (∀ (callbacks : Callbacks σ) bytes s,
      Bounded.runs (final ((Bounded.decode R afterError callbacks bytes).run s)).world.events ≤
        Bounded.runs s.world.events + (bytes.length + (s.self.limit - s.self.total) + 1)) ∧
    ((final r).self.finish = .ok () →
      (∃ event ∈ (final r).world.events, event.Completes) ∧
      ∀ results, outcome r = .ok results → (∀ result ∈ results, result = .ok ()) →
        Bounded.Reported (pushes.map Prod.fst).flatten (final r).world.events) := by
  intro r
  obtain ⟨results, t, hr, hkept⟩ : ∃ results t, r = .ok results t ∧ _ := exists_run_of_wp
    (Bounded.pushAll_kept pushes True [] ⟨BoundedDecoder.fresh decoder, foreign, []⟩
      (Bounded.fresh_kept decoder))
  rw [hr]
  refine ⟨?_, hkept.emitted.trans (hkept.total.trans hkept.limit.le),
    fun callbacks bytes s => Bounded.decode_runs bytes s, fun hfinish => ?_⟩
  · have hgood := hkept.good
    rw [hkept.limit] at hgood
    exact hgood
  · have hcomplete : t.self.complete = true := by
      change t.self.finish = .ok () at hfinish
      unfold BoundedDecoder.finish at hfinish
      split_ifs at hfinish with hdone
      exact hdone.2
    refine ⟨hkept.completed hcomplete, fun results' hresults hall => ?_⟩
    obtain rfl : results = results' := Except.ok.inj hresults
    exact hkept.reported ⟨trivial, hall⟩ hcomplete

/-! ### A frame with a byte behind it -/

def quietCallbacks : Callbacks Unit where
  emit _ := pure ()
  cancelled := pure ()

/-- The empty frame and a byte are pushed at once. -/
def overlong : EStateM.Result BackupErrorCode (Owning (BoundedDecoder StoredState)
    (Observed StoredState Unit)) (List (Except BackupErrorCode Unit)) :=
  (Bounded.pushAll storedDecoder (fun d _ _ => d) [(stored [] ++ [0], quietCallbacks)]).run
    ⟨BoundedDecoder.fresh ⟨[], none⟩, (), []⟩

/-- **The push is refused, and the decoder can be finished**, although a byte follows the frame. -/
theorem not_finished_once : outcome overlong = .ok [.error .invalidCompressedData] ∧
    (final overlong).self.finish = .ok () ∧
    ¬Bounded.Reported (stored [] ++ [0]) (final overlong).world.events := by
  have hconsumed : (final overlong).world.events.flatMap Event.consumed = stored [] := by
    decide +kernel
  refine ⟨by decide +kernel, by decide +kernel, ?_⟩
  rintro ⟨before, event, after, hevents, -, hread⟩
  rw [hevents, ← List.singleton_append, ← List.append_assoc, List.flatMap_append, hread] at hconsumed
  have hlength := congrArg List.length hconsumed
  simp only [List.length_append, List.length_singleton] at hlength
  omega

end KChat.Backup
