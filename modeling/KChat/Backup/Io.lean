import KChat.Backup.Basic
import KChat.Lib.Effect

/-!
# Byte sources and sinks

The caller's two objects share one foreign state `σ`, which every call may change. A read gives the
bytes it put into the destination, so it reports too many when it gives more than the capacity.

* `World`: the foreign state, and every chunk the sink was called with.
* `Serves`: what the source gives, chunk by chunk, is a given byte string; `Honest`: it also never
  cancels and never fails; `NeverFails`: every write of the sink succeeds.
* `memorySource`, `memorySink`: the caller that serves a byte string at most `k` bytes at a time;
  `memory_honest`, `memorySink_neverFails`.
* **`sim_cancelled`**, **`sim_write`**: two honest callers of one byte string are indistinguishable,
  up to the way they cut it.
-/

namespace KChat.Backup

open Lib

variable {σ τ α : Type}

structure BackupByteSource (σ : Type) where
  readChunk : ℕ → EStateM BackupErrorCode σ Bytes
  isCancelled : σ → Bool × σ

structure BackupByteSink (σ : Type) where
  writeChunk : Bytes → EStateM BackupErrorCode σ Unit

/-- The foreign state and the chunks passed to the sink so far. -/
structure World (σ : Type) where
  foreign : σ
  delivered : List Bytes

namespace World

def bytes (w : World σ) : Bytes := w.delivered.flatten

@[simp] theorem bytes_foreign (w : World σ) (s : σ) : { w with foreign := s }.bytes = w.bytes := rfl

end World

/-- A computation on the caller's objects. -/
abbrev Call (σ α : Type) : Type := EStateM BackupErrorCode (World σ) α

def onForeign (x : EStateM BackupErrorCode σ α) : Call σ α :=
  zoom World.foreign (fun s w => { w with foreign := s }) x

def BackupByteSource.read (source : BackupByteSource σ) (capacity : ℕ) : Call σ Bytes :=
  onForeign (source.readChunk capacity)

def BackupByteSource.cancelled (source : BackupByteSource σ) : Call σ Bool := fun w =>
  let r := source.isCancelled w.foreign
  .ok r.1 { w with foreign := r.2 }

def BackupByteSink.write (sink : BackupByteSink σ) (chunk : Bytes) : Call σ Unit := do
  modify fun w => { w with delivered := w.delivered ++ [chunk] }
  onForeign (sink.writeChunk chunk)

/-! ## What callers may do -/

section callers

variable (source : BackupByteSource σ) (sink : BackupByteSink σ) (R : σ → Bytes → Prop)

/-- **What the source gives is a byte string, chunk by chunk**: `R s rest` says that `rest` is left
to be read. Nothing is given only at the end. -/
structure Serves : Prop where
  isCancelled : ∀ {s rest}, R s rest → R (source.isCancelled s).2 rest
  readChunk : ∀ {s rest capacity}, R s rest → 0 < capacity → wp (source.readChunk capacity) s
    (fun data s' => data.length ≤ capacity ∧ (data = [] → rest = []) ∧
      ∃ rest', rest = data ++ rest' ∧ R s' rest')
    fun _ _ => True
  writeChunk : ∀ {s rest chunk}, R s rest →
    wp (sink.writeChunk chunk) s (fun _ s' => R s' rest) fun _ s' => R s' rest

/-- **An honest source** also never cancels and never fails. -/
structure Honest : Prop extends Serves source sink R where
  notCancelled : ∀ {s rest}, R s rest → (source.isCancelled s).1 = false
  reads : ∀ {s rest capacity}, R s rest → 0 < capacity →
    ∃ data s', (source.readChunk capacity).run s = .ok data s'

/-- Every write of the sink succeeds. -/
def NeverFails : Prop := ∀ chunk s, ∃ s', (sink.writeChunk chunk).run s = .ok () s'

end callers

/-! ## The caller in memory -/

/-- The source that serves its state, at most `k` bytes at a time. -/
def memorySource (k : ℕ) : BackupByteSource Bytes where
  readChunk capacity := do
    let rest ← get
    set (rest.drop (min capacity k))
    pure (rest.take (min capacity k))
  isCancelled rest := (false, rest)

def memorySink : BackupByteSink Bytes where
  writeChunk _ := pure ()

theorem memory_honest {k : ℕ} (hk : 0 < k) : Honest (memorySource k) memorySink Eq where
  isCancelled h := h
  readChunk := by
    rintro s rest capacity rfl hc
    refine ⟨?_, fun h => ?_, s.drop (min capacity k), (List.take_append_drop _ _).symm, rfl⟩
    · exact (List.length_take_le _ _).trans (min_le_left _ _)
    · rcases List.take_eq_nil_iff.mp h with h | h
      · omega
      · exact h
  writeChunk h := h
  notCancelled _ := rfl
  reads _ _ := ⟨_, _, rfl⟩

theorem memorySink_neverFails : NeverFails memorySink := fun _ s => ⟨s, rfl⟩

/-! ## Honest callers of one byte string -/

section honest

variable {source : BackupByteSource σ} {sink : BackupByteSink σ} {R : σ → Bytes → Prop}
  {source' : BackupByteSource τ} {sink' : BackupByteSink τ} {R' : τ → Bytes → Prop}

/-- The two callers have the same bytes left, and their sinks got the same chunks. -/
def Alike (R : σ → Bytes → Prop) (R' : τ → Bytes → Prop) (w : World σ) (w' : World τ) : Prop :=
  (∃ rest, R w.foreign rest ∧ R' w'.foreign rest) ∧ w.delivered = w'.delivered

def SameDelivered (w : World σ) (w' : World τ) : Prop := w.delivered = w'.delivered

theorem Alike.sameDelivered {w : World σ} {w' : World τ} (h : Alike R R' w w') :
    SameDelivered w w' := h.2

theorem cancelled_run (h : Honest source sink R) {w : World σ} {rest : Bytes}
    (hR : R w.foreign rest) : ∃ s, source.cancelled.run w = .ok false { w with foreign := s } ∧
      R s rest := by
  refine ⟨(source.isCancelled w.foreign).2, ?_, h.isCancelled hR⟩
  rw [← h.notCancelled hR]
  rfl

theorem read_run (h : Honest source sink R) {w : World σ} {rest : Bytes} (hR : R w.foreign rest)
    {capacity : ℕ} (hc : 0 < capacity) : ∃ data s rest',
      (source.read capacity).run w = .ok data { w with foreign := s } ∧ data.length ≤ capacity ∧
        (data = [] → rest = []) ∧ rest = data ++ rest' ∧ R s rest' := by
  obtain ⟨data, s, hs⟩ := h.reads hR hc
  obtain ⟨hle, hend, rest', hrest, hR'⟩ := (wp_of_ok hs).mp (h.readChunk hR hc)
  exact ⟨data, s, rest', run_zoom_ok hs, hle, hend, hrest, hR'⟩

theorem write_run (h : Honest source sink R) (hsink : NeverFails sink) {w : World σ} {rest : Bytes}
    (hR : R w.foreign rest) (chunk : Bytes) : ∃ s, (sink.write chunk).run w =
      .ok () { foreign := s, delivered := w.delivered ++ [chunk] } ∧ R s rest := by
  obtain ⟨s, hs⟩ := hsink chunk w.foreign
  refine ⟨s, ?_, (wp_of_ok hs).mp (h.writeChunk hR)⟩
  exact (run_bind_ok rfl).trans (run_zoom_ok hs)

theorem sim_cancelled (h : Honest source sink R) (h' : Honest source' sink' R') :
    Sim (Alike R R') SameDelivered source.cancelled source'.cancelled := by
  rintro w w' ⟨⟨rest, hR, hR'⟩, hd⟩
  obtain ⟨s, hs, hsR⟩ := cancelled_run h hR
  obtain ⟨s', hs', hsR'⟩ := cancelled_run h' hR'
  rw [hs, hs']
  exact .ok ⟨⟨rest, hsR, hsR'⟩, hd⟩

theorem sim_write (h : Honest source sink R) (h' : Honest source' sink' R')
    (hsink : NeverFails sink) (hsink' : NeverFails sink') (chunk : Bytes) :
    Sim (Alike R R') SameDelivered (sink.write chunk) (sink'.write chunk) := by
  rintro w w' ⟨⟨rest, hR, hR'⟩, hd⟩
  obtain ⟨s, hs, hsR⟩ := write_run h hsink hR chunk
  obtain ⟨s', hs', hsR'⟩ := write_run h' hsink' hR' chunk
  rw [hs, hs', hd]
  exact .ok ⟨⟨rest, hsR, hsR'⟩, rfl⟩

end honest

end KChat.Backup
