import KChat.Backup.Bounded
import KChat.Backup.HeaderCheck

/-!
# The gate in front of the raw decoder

* `Given`: every run of one call of `decode` is given what is left of the slice;
  `decodeLoop_given`, `decode_given`.
* `Gated`: what holds of a decoder that was pushed a byte string, however it was cut;
  **`push_gated`**, **`pushAll_gated`**: any sequence of pushes, whatever the raw decoder and the
  callbacks do.
* **`header_gate`**: what reaches the raw decoder, and what decides it.
-/

namespace KChat.Backup

open Lib

variable {σ δ : Type}

namespace Bounded

section gate

variable {R : RawDecoder δ} {afterError : δ → Bytes → ℕ → δ} {callbacks : Callbacks σ}
  {quiet orderly : Prop} {pushed bytes : Bytes} {d : BoundedDecoder δ} {events more : List (Event δ)}
  {fh : FrameHeader}

/-! ## One call of `decode` -/

/-- The bytes that the runs have read. -/
def consumed (events : List (Event δ)) : Bytes := events.flatMap Event.consumed

@[simp] theorem consumed_nil : consumed ([] : List (Event δ)) = [] := rfl

@[simp] theorem consumed_append (events more : List (Event δ)) :
    consumed (events ++ more) = consumed events ++ consumed more := List.flatMap_append

@[simp] theorem consumed_cons (event : Event δ) :
    consumed (event :: events) = event.consumed ++ consumed events := List.flatMap_cons

/-- Every run is given what is left of the slice. -/
structure Given (bytes : Bytes) (events : List (Event δ)) : Prop where
  inputs : ∀ before total capacity input status after,
    events = before ++ .ran total capacity input status :: after → consumed before ++ input = bytes
  consumed : consumed events <+: bytes

theorem given_nil (bytes : Bytes) : Given bytes ([] : List (Event δ)) where
  inputs before _ _ _ _ _ h := by simp at h
  consumed := List.nil_prefix

theorem Given.ran {total capacity n : ℕ} {status : Option (RawStatus δ)}
    (h : Given (bytes.drop n) events)
    (hn : (Event.ran total capacity bytes status).consumed = bytes.take n) :
    Given bytes (.ran total capacity bytes status :: events) where
  inputs before total' capacity' input status' after hsplit := by
    cases before with
    | nil =>
      rw [List.nil_append] at hsplit
      cases hsplit
      rfl
    | cons event before =>
      rw [List.cons_append] at hsplit
      obtain ⟨hevent, htail⟩ := List.cons.inj hsplit
      rw [consumed_cons, ← hevent, hn, List.append_assoc, h.inputs _ _ _ _ _ _ htail,
        List.take_append_drop]
  consumed := by
    rw [consumed_cons, hn]
    have hbegins := (List.prefix_append_right_inj (bytes.take n)).mpr h.consumed
    rwa [List.take_append_drop] at hbegins

theorem Given.emitting (h : Given bytes events) (chunk : Bytes) :
    Given bytes (emitting chunk ++ events) := by
  unfold Bounded.emitting
  split_ifs
  · exact h
  · refine ⟨fun before total capacity input status after hsplit => ?_, h.consumed⟩
    cases before with
    | nil => cases hsplit
    | cons event before =>
      obtain ⟨hevent, htail⟩ := List.cons.inj hsplit
      rw [consumed_cons, ← hevent]
      exact h.inputs _ _ _ _ _ _ htail

/-- What a call of `decode` adds to the events, and what it leaves of the header. -/
def Gave (bytes : Bytes) (d : BoundedDecoder δ) (events : List (Event δ)) (P : Bytes → Prop)
    (t : Owning (BoundedDecoder δ) (Observed δ σ)) : Prop :=
  ∃ more, t.world.events = events ++ more ∧ Given bytes more ∧ P (consumed more) ∧
    t.self.header = d.header ∧ t.self.headerChecked = d.headerChecked

theorem Gave.mono {P P' : Bytes → Prop} {t : Owning (BoundedDecoder δ) (Observed δ σ)}
    (h : Gave bytes d events P t) (hP : ∀ read, P read → P' read) : Gave bytes d events P' t := by
  obtain ⟨more, ht, hmore, hread, hkeep⟩ := h
  exact ⟨more, ht, hmore, hP _ hread, hkeep⟩

theorem decodeLoop_given (d : BoundedDecoder δ) (bytes : Bytes)
    (s : Owning (BoundedDecoder δ) (Observed δ σ)) (hself : s.self = d) :
    wp (decodeLoop R afterError callbacks d bytes) s
      (fun _ => Gave bytes d s.world.events (· = bytes))
      fun _ => Gave bytes d s.world.events fun _ => True := by
  induction d, bytes using decodeLoop.induct R generalizing s with
  | case1 d bytes ih =>
    obtain ⟨self, foreign, events⟩ := s
    obtain rfl : self = d := hself
    rw [decodeLoop, wp_bind]
    refine wp_calling (fun _ foreign => ?_) fun _ _ => ?_
    swap
    · exact ⟨[], (List.append_nil _).symm, given_nil bytes, trivial, rfl, rfl⟩
    dsimp only
    rw [wp_bind, wp_record]
    have hran : ∀ status, Given bytes [(.ran self.total (capacityOf self) bytes status : Event δ)] := by
      intro status
      cases status with
      | none => exact Given.ran (n := 0) (given_nil _) rfl
      | some status => exact Given.ran (n := status.bytesRead) (given_nil _) rfl
    split
    · rw [wp_bind, wp_become]
      exact ⟨_, rfl, hran _, trivial, rfl, rfl⟩
    rename_i status hrun
    split
    · rename_i htotal
      have hconsumed : (Event.ran self.total (capacityOf self) bytes
          (R.runOnBuffers self.decoder bytes (capacityOf self))).consumed =
            bytes.take status.bytesRead := by
        rw [show R.runOnBuffers self.decoder bytes (capacityOf self) = some status from hrun]
        rfl
      rw [wp_bind, wp_become, wp_bind]
      refine wp_calling (fun _ foreign => ?_) fun _ foreign => ?_
      swap
      · exact ⟨_, rfl, hran _, trivial, rfl, rfl⟩
      obtain ⟨event, hevent⟩ : ∃ event, event = Event.ran self.total (capacityOf self) bytes
        (R.runOnBuffers self.decoder bytes (capacityOf self)) := ⟨_, rfl⟩
      rw [← hevent] at hconsumed
      have hgiven : ∀ later : List (Event δ), Given (bytes.drop status.bytesRead) later →
          Given bytes (event :: (emitting status.written ++ later)) := by
        intro later hlater
        rw [hevent] at hconsumed ⊢
        exact (hlater.emitting status.written).ran hconsumed
      have hevents : ∀ later : List (Event δ), events ++ [event] ++ emitting status.written ++ later =
          events ++ event :: (emitting status.written ++ later) := by
        intro later
        simp only [List.append_assoc, List.cons_append, List.nil_append]
      -- the states in which the round can end
      have hgave : ∀ t : Owning (BoundedDecoder δ) (Observed δ σ),
          t.world.events = events ++ [.ran self.total (capacityOf self) bytes
            (R.runOnBuffers self.decoder bytes (capacityOf self))] ++ emitting status.written →
          t.self.header = self.header → t.self.headerChecked = self.headerChecked →
          Gave bytes self events (fun read => read = bytes.take status.bytesRead) t := by
        intro t ht hheader hchecked
        refine ⟨event :: (emitting status.written ++ []), ?_, hgiven [] (given_nil _), ?_, hheader,
          hchecked⟩
        · rw [← hevents, List.append_nil, ht, hevent]
        · simp [consumed, hconsumed]
      have hall : bytes.drop status.bytesRead = [] → bytes.take status.bytesRead = bytes :=
        fun hrest => List.take_of_length_le (List.drop_eq_nil_iff.mp hrest)
      rw [wp_bind]
      refine wp_emit (fun foreign => ?_) fun _ foreign => (hgave _ rfl rfl rfl).mono fun _ _ => trivial
      rw [wp_bind]
      refine wp_calling (fun _ foreign => ?_) fun _ foreign =>
        (hgave _ rfl rfl rfl).mono fun _ _ => trivial
      dsimp only
      refine wp_ite (fun hremaining => ?_) fun _ => ?_
      · rw [wp_bind, wp_become]
        refine wp_ite (fun hrest => ?_) fun _ => (hgave _ rfl rfl rfl).mono fun _ _ => trivial
        exact (hgave _ rfl rfl rfl).mono fun _ hread => hread.trans (hall hrest)
      · split
        · refine wp_ite (fun hrest => ?_) fun _ => (hgave _ rfl rfl rfl).mono fun _ _ => trivial
          exact (hgave _ rfl rfl rfl).mono fun _ hread => hread.trans (hall hrest)
        · rename_i hidle
          have hlater : ∀ (P P' : Bytes → Prop) (t : Owning (BoundedDecoder δ) (Observed δ σ)),
              (∀ read, P read → P' (bytes.take status.bytesRead ++ read)) →
              Gave (bytes.drop status.bytesRead)
                { self with decoder := status.decoder, total := self.total + status.written.length }
                (events ++ [.ran self.total (capacityOf self) bytes
                  (R.runOnBuffers self.decoder bytes (capacityOf self))] ++ emitting status.written)
                P t → Gave bytes self events P' t := by
            rintro P P' t hP ⟨more, ht, hmore, hread, hheader, hchecked⟩
            refine ⟨event :: (emitting status.written ++ more), ?_, hgiven more hmore, ?_, hheader,
              hchecked⟩
            · rw [ht, ← hevent, hevents]
            · have hP' := hP _ hread
              simpa [consumed, hconsumed] using hP'
          refine wp_mono (ih status hrun htotal hidle _ rfl) (fun _ t ht => ?_) fun _ t ht => ?_
          · refine hlater _ _ t (fun read hread => ?_) ht
            rw [hread, List.take_append_drop]
          · exact hlater _ _ t (fun _ _ => trivial) ht
    · rw [wp_bind, wp_become]
      exact ⟨_, rfl, hran _, trivial, rfl, rfl⟩

/-- **One call of `decode`** reads the slice from its start on, all of it if it succeeds. -/
theorem decode_given (bytes : Bytes) (s : Owning (BoundedDecoder δ) (Observed δ σ)) :
    wp (decode R afterError callbacks bytes) s
      (fun _ => Gave bytes s.self s.world.events (· = bytes))
      fun _ => Gave bytes s.self s.world.events fun _ => True := by
  unfold decode
  rw [wp_bind, wp_getSelf]
  have hnone : ∀ P : Bytes → Prop, P [] → Gave bytes s.self s.world.events P s :=
    fun P hP => ⟨[], (List.append_nil _).symm, given_nil bytes, hP, rfl, rfl⟩
  refine wp_ite (fun _ => ?_) fun _ => decodeLoop_given s.self bytes s rfl
  exact wp_ite (fun hnil => hnone (· = bytes) hnil.symm) fun _ =>
    hnone (fun _ => True) trivial

/-! ## The gate -/

/-- **What holds of a decoder that was pushed `pushed`.** As long as the check waits nothing is run
and the bytes are kept. A decoder whose check has passed may run. `quiet` says that no push has
failed, `orderly` that none has but the last. -/
structure Gated (quiet orderly : Prop) (pushed : Bytes) (d : BoundedDecoder δ)
    (events : List (Event δ)) : Prop where
  checked : d.headerChecked = true → checkHeader pushed = .ok true ∧ d.header = []
  waiting : d.headerChecked = false → events = [] ∧ checkHeader d.header = checkHeader pushed ∧
    checkHeader pushed ≠ .ok true
  kept : d.headerChecked = false → checkHeader pushed = .ok false → d.header = pushed
  inOrder : (consumed events ++ d.header).Sublist pushed
  exact : quiet → d.headerChecked = true → consumed events = pushed
  inputs : orderly → ∀ before total capacity input status after,
    events = before ++ .ran total capacity input status :: after →
      consumed before ++ input <+: pushed ∧
      ∃ fh, FrameHeader.parse pushed = some fh ∧ GoodHeader fh ∧
        fh.length ≤ (consumed before ++ input).length

theorem fresh_gated (decoder : δ) : Gated True True [] (BoundedDecoder.fresh decoder) [] where
  checked h := by simp [BoundedDecoder.fresh] at h
  waiting _ := ⟨rfl, rfl, by rw [checkHeader_of_length_lt (by simp)]; simp⟩
  kept _ _ := rfl
  inOrder := List.Sublist.refl []
  exact _ h := by simp [BoundedDecoder.fresh] at h
  inputs _ before _ _ _ _ _ h := by simp at h

theorem Gated.decoded (hchecked : d.headerChecked = true) (hheader : d.header = [])
    (hcheck : checkHeader pushed = .ok true)
    (horder : (consumed events ++ bytes).Sublist pushed)
    (hexact : quiet → consumed events ++ bytes = pushed)
    (hinputs : quiet → ∀ before total capacity input status after,
      events = before ++ .ran total capacity input status :: after →
        consumed before ++ input <+: pushed ∧
        ∃ fh, FrameHeader.parse pushed = some fh ∧ GoodHeader fh ∧
          fh.length ≤ (consumed before ++ input).length)
    (hgiven : Given bytes more) :
    Gated (quiet ∧ consumed more = bytes) quiet pushed d (events ++ more) where
  checked _ := ⟨hcheck, hheader⟩
  waiting h := by simp [hchecked] at h
  kept h := by simp [hchecked] at h
  inOrder := by
    rw [hheader, List.append_nil, consumed_append]
    exact ((List.Sublist.refl _).append hgiven.consumed.sublist).trans horder
  exact hquiet _ := by
    rw [consumed_append, hquiet.2]
    exact hexact hquiet.1
  inputs hquiet before total capacity input status after hsplit := by
    obtain ⟨later, hevents, htail⟩ | ⟨later, hbefore, htail⟩ := List.append_eq_append_iff.mp hsplit
    · -- a run of this call
      have hinput := hgiven.inputs _ _ _ _ _ _ htail
      obtain ⟨fh, hparse, hgood⟩ := checkHeader_eq_ok_true hcheck
      have heq : consumed before ++ input = pushed := by
        rw [hevents, consumed_append, List.append_assoc, hinput]
        exact hexact hquiet
      rw [heq]
      exact ⟨List.prefix_rfl, fh, hparse, hgood, (FrameHeader.parse_take hparse).1⟩
    · -- a run of an earlier one, or the first of this call
      cases later with
      | nil =>
        rw [List.append_nil] at hbefore
        have hinput := hgiven.inputs [] total capacity input status after htail.symm
        obtain ⟨fh, hparse, hgood⟩ := checkHeader_eq_ok_true hcheck
        have heq : consumed before ++ input = pushed := by
          rw [← hbefore, show input = bytes from hinput]
          exact hexact hquiet
        rw [heq]
        exact ⟨List.prefix_rfl, fh, hparse, hgood, (FrameHeader.parse_take hparse).1⟩
      | cons event later =>
        rw [List.cons_append] at htail
        obtain ⟨hevent, -⟩ := List.cons.inj htail
        rw [← hevent] at hbefore
        exact hinputs hquiet before total capacity input status later hbefore

theorem Gated.imp {quiet' orderly' : Prop} (h : Gated quiet orderly pushed d events)
    (hquiet : quiet' → quiet) (horderly : orderly' → orderly) :
    Gated quiet' orderly' pushed d events :=
  { h with
    exact := fun hq => h.exact (hquiet hq)
    inputs := fun ho => h.inputs (horderly ho) }

theorem Gated.inputs_append (h : Gated quiet orderly pushed d events) (horderly : orderly)
    (bytes : Bytes) (before : List (Event δ)) (total capacity : ℕ) (input : Bytes)
    (status : Option (RawStatus δ)) (after : List (Event δ))
    (hsplit : events = before ++ .ran total capacity input status :: after) :
    consumed before ++ input <+: pushed ++ bytes ∧
      ∃ fh, FrameHeader.parse (pushed ++ bytes) = some fh ∧ GoodHeader fh ∧
        fh.length ≤ (consumed before ++ input).length := by
  obtain ⟨hbegins, fh, hparse, hgood, hle⟩ := h.inputs horderly _ _ _ _ _ _ hsplit
  exact ⟨hbegins.trans (List.prefix_append _ _), fh, FrameHeader.parse_append hparse _, hgood, hle⟩

variable {s : Owning (BoundedDecoder δ) (Observed δ σ)}

def GatedAfter (quiet orderly : Prop) (pushed : Bytes)
    (t : Owning (BoundedDecoder δ) (Observed δ σ)) : Prop :=
  Gated quiet orderly pushed t.self t.world.events ∧ t.self.headerChecked = true

/-- **One call of `decode`** at the end of what was pushed. -/
theorem decode_gated (bytes : Bytes) (hchecked : s.self.headerChecked = true)
    (hheader : s.self.header = []) (hcheck : checkHeader pushed = .ok true)
    (horder : (consumed s.world.events ++ bytes).Sublist pushed)
    (hexact : quiet → consumed s.world.events ++ bytes = pushed)
    (hinputs : quiet → ∀ before total capacity input status after,
      s.world.events = before ++ .ran total capacity input status :: after →
        consumed before ++ input <+: pushed ∧
        ∃ fh, FrameHeader.parse pushed = some fh ∧ GoodHeader fh ∧
          fh.length ≤ (consumed before ++ input).length) :
    wp (decode R afterError callbacks bytes) s (fun _ => GatedAfter quiet quiet pushed)
      fun _ => GatedAfter False quiet pushed := by
  refine wp_mono (decode_given bytes s) ?_ ?_
  · rintro _ t ⟨more, ht, hgiven, hread, hheader', hchecked'⟩
    have hgated := Gated.decoded (hchecked'.trans hchecked) (hheader'.trans hheader) hcheck horder
      hexact hinputs hgiven
    rw [← ht] at hgated
    exact ⟨hgated.imp (fun hquiet => ⟨hquiet, hread⟩) id, hchecked'.trans hchecked⟩
  · rintro _ t ⟨more, ht, hgiven, -, hheader', hchecked'⟩
    have hgated := Gated.decoded (hchecked'.trans hchecked) (hheader'.trans hheader) hcheck horder
      hexact hinputs hgiven
    rw [← ht] at hgated
    exact ⟨hgated.imp False.elim id, hchecked'.trans hchecked⟩

theorem Gated.decode (h : Gated quiet quiet pushed s.self s.world.events)
    (hchecked : s.self.headerChecked = true) (bytes : Bytes) :
    wp (decode R afterError callbacks bytes) s (fun _ => GatedAfter quiet quiet (pushed ++ bytes))
      fun _ => GatedAfter False quiet (pushed ++ bytes) := by
  obtain ⟨hcheck, hheader⟩ := h.checked hchecked
  apply decode_gated bytes hchecked hheader
  · rw [checkHeader_append (by rw [hcheck]; simp), hcheck]
  · have hsub := h.inOrder
    rw [hheader, List.append_nil] at hsub
    exact hsub.append (List.Sublist.refl bytes)
  · intro hquiet
    rw [h.exact hquiet hchecked]
  · intro hquiet
    exact h.inputs_append hquiet bytes

/-! ## The bytes of the header -/

/-- What the check says of the bytes it has kept is what it says of all bytes. -/
theorem Gated.checkHeader_concat (h : Gated quiet orderly pushed d events)
    (hchecked : d.headerChecked = false) (b : UInt8) :
    checkHeader (d.header ++ [b]) = checkHeader (pushed ++ [b]) := by
  obtain ⟨-, hsame, -⟩ := h.waiting hchecked
  by_cases hwait : checkHeader pushed = .ok false
  · rw [h.kept hchecked hwait]
  · rw [checkHeader_append hwait, checkHeader_append (by rwa [hsame]), hsame]

/-- A check that waits has waited before. -/
theorem checkHeader_of_append {header more : Bytes} {r : Except BackupErrorCode Bool}
    (h : checkHeader (header ++ more) = r) :
    checkHeader header = .ok false ∨ checkHeader header = r := by
  by_cases hwait : checkHeader header = .ok false
  · exact .inl hwait
  · rw [checkHeader_append hwait] at h
    exact .inr h

theorem Gated.wait (h : Gated quiet quiet pushed d events) (hchecked : d.headerChecked = false)
    {b : UInt8} (hcheck : checkHeader (d.header ++ [b]) = .ok false) :
    Gated quiet quiet (pushed ++ [b]) { d with header := d.header ++ [b] } events where
  checked hc := by simp [hchecked] at hc
  waiting _ := by
    obtain ⟨hevents, -, -⟩ := h.waiting hchecked
    have hsame := h.checkHeader_concat hchecked b
    exact ⟨hevents, hsame, by rw [← hsame, hcheck]; simp⟩
  kept _ hwait := by
    have hbefore := checkHeader_of_append hwait
    rw [or_self] at hbefore
    exact congrArg (· ++ [b]) (h.kept hchecked hbefore)
  inOrder := by
    have hsub := h.inOrder.append (List.Sublist.refl [b])
    rwa [List.append_assoc] at hsub
  exact _ hc := by simp [hchecked] at hc
  inputs hquiet := h.inputs_append hquiet [b]

/-- The check refuses; what follows in the slice is dropped. -/
theorem Gated.refuse (h : Gated quiet quiet pushed d events) (hchecked : d.headerChecked = false)
    {b : UInt8} {e : BackupErrorCode} (hcheck : checkHeader (d.header ++ [b]) = .error e)
    (bytes : Bytes) :
    Gated False quiet (pushed ++ b :: bytes) { d with header := d.header ++ [b] } events ∧
      checkHeader (pushed ++ b :: bytes) = .error e := by
  have hsame := h.checkHeader_concat hchecked b
  rw [hcheck] at hsame
  have hall : checkHeader (pushed ++ b :: bytes) = .error e := by
    rw [← List.singleton_append, ← List.append_assoc, checkHeader_append (by rw [← hsame]; simp),
      ← hsame]
  obtain ⟨hevents, -, -⟩ := h.waiting hchecked
  refine ⟨?_, hall⟩
  exact {
    checked := fun hc => by simp [hchecked] at hc
    waiting := fun _ => ⟨hevents, by rw [hcheck, hall], by rw [hall]; simp⟩
    kept := fun _ hwait => by simp [hall] at hwait
    inOrder := by
      have hone : [b].Sublist (b :: bytes) := List.singleton_sublist.mpr List.mem_cons_self
      have hsub := h.inOrder.append hone
      rwa [List.append_assoc] at hsub
    exact := False.elim
    inputs := fun hquiet => h.inputs_append hquiet _ }

theorem Gated.drop (h : Gated quiet orderly pushed d events) (hchecked : d.headerChecked = true)
    (bytes : Bytes) : Gated False orderly (pushed ++ bytes) d events where
  checked _ := by
    obtain ⟨hcheck, hheader⟩ := h.checked hchecked
    exact ⟨by rw [checkHeader_append (by rw [hcheck]; simp), hcheck], hheader⟩
  waiting hc := by simp [hchecked] at hc
  kept hc := by simp [hchecked] at hc
  inOrder := h.inOrder.trans (List.sublist_append_left _ _)
  exact := False.elim
  inputs horderly := h.inputs_append horderly bytes

/-- The check accepts, and the header is decoded first. -/
theorem Gated.accept (h : Gated quiet quiet pushed s.self s.world.events)
    (hchecked : s.self.headerChecked = false) {b : UInt8}
    (hcheck : checkHeader (s.self.header ++ [b]) = .ok true) :
    wp (Bounded.decode R afterError callbacks (s.self.header ++ [b]))
      ⟨{ s.self with header := [], headerChecked := true }, s.world⟩
      (fun _ => GatedAfter quiet quiet (pushed ++ [b]))
      fun _ => GatedAfter False quiet (pushed ++ [b]) := by
  obtain ⟨hevents, -, -⟩ := h.waiting hchecked
  have hsame := h.checkHeader_concat hchecked b
  rw [hcheck] at hsame
  have hbefore : checkHeader pushed = .ok false := by
    refine (checkHeader_of_append hsame.symm).resolve_right fun htrue => ?_
    exact (h.waiting hchecked).2.2 htrue
  have hkept := h.kept hchecked hbefore
  apply decode_gated _ rfl rfl hsame.symm
  · rw [hevents, hkept]
    exact List.Sublist.refl _
  · intro _
    rw [hevents, hkept]
    rfl
  · intro _ before total capacity input status after hsplit
    rw [hevents] at hsplit
    simp at hsplit

theorem pushHeader_gated (bytes : Bytes) (s : Owning (BoundedDecoder δ) (Observed δ σ))
    (pushed : Bytes) (h : Gated quiet quiet pushed s.self s.world.events) :
    wp (pushHeader R afterError callbacks bytes) s
      (fun rest t => ∃ done, bytes = done ++ rest ∧
        Gated quiet quiet (pushed ++ done) t.self t.world.events ∧
        (t.self.headerChecked = true ∨ rest = []) ∧
        (done = [] ∨ ∀ e, checkHeader (pushed ++ done) ≠ .error e))
      fun e t => Gated False quiet (pushed ++ bytes) t.self t.world.events ∧ bytes ≠ [] ∧
        (checkHeader (pushed ++ bytes) = .error e ∨ checkHeader (pushed ++ bytes) = .ok true) := by
  induction bytes generalizing s pushed with
  | nil => exact ⟨[], rfl, by rwa [List.append_nil], .inr rfl, .inl rfl⟩
  | cons b bytes ih =>
    have hnext : ∀ t : Owning (BoundedDecoder δ) (Observed δ σ),
        Gated quiet quiet (pushed ++ [b]) t.self t.world.events →
        (∀ e, checkHeader (pushed ++ [b]) ≠ .error e) →
        wp (pushHeader R afterError callbacks bytes) t
          (fun rest u => ∃ done, b :: bytes = done ++ rest ∧
            Gated quiet quiet (pushed ++ done) u.self u.world.events ∧
            (u.self.headerChecked = true ∨ rest = []) ∧
            (done = [] ∨ ∀ e, checkHeader (pushed ++ done) ≠ .error e))
          fun e u => Gated False quiet (pushed ++ b :: bytes) u.self u.world.events ∧
            b :: bytes ≠ [] ∧ (checkHeader (pushed ++ b :: bytes) = .error e ∨
              checkHeader (pushed ++ b :: bytes) = .ok true) := by
      intro t ht hfine
      refine wp_mono (ih t _ ht) ?_ ?_
      · rintro rest u ⟨done, rfl, hu, hrest, hdone⟩
        rw [List.append_assoc, List.singleton_append] at hu hdone
        refine ⟨b :: done, rfl, hu, hrest, .inr ?_⟩
        obtain rfl | hdone := hdone
        · exact hfine
        · exact hdone
      · rintro e u ⟨hu, -, hcheck⟩
        rw [List.append_assoc, List.singleton_append] at hu hcheck
        exact ⟨hu, List.cons_ne_nil _ _, hcheck⟩
    rw [pushHeader, wp_bind, wp_getSelf]
    by_cases hchecked : s.self.headerChecked = true
    · rw [if_pos hchecked]
      exact ⟨[], rfl, by rwa [List.append_nil], .inl hchecked, .inl rfl⟩
    rw [if_neg hchecked]
    replace hchecked := Bool.eq_false_iff.mpr hchecked
    have hsame := h.checkHeader_concat hchecked b
    dsimp only
    rw [wp_bind, wp_become, wp_bind]
    refine wp_ofResult (fun complete hcomplete => ?_) fun e he => ?_
    · refine wp_ite (fun htrue => ?_) fun hfalse => ?_
      · rw [htrue] at hcomplete
        rw [wp_bind, wp_become, wp_bind]
        have hcheck : checkHeader (pushed ++ [b]) = .ok true := hsame.symm.trans hcomplete
        refine wp_mono (h.accept hchecked hcomplete) (fun _ t ht => ?_) fun e t ht => ?_
        · exact hnext t ht.1 (by simp [hcheck])
        · have hdropped := ht.1.drop ht.2 bytes
          rw [List.append_assoc, List.singleton_append] at hdropped
          exact ⟨hdropped, List.cons_ne_nil _ _, .inr (hdropped.checked ht.2).1⟩
      · rw [Bool.eq_false_iff.mpr hfalse] at hcomplete
        exact hnext _ (h.wait hchecked hcomplete) (by rw [← hsame, hcomplete]; simp)
    · obtain ⟨hgated, hcheck⟩ := h.refuse hchecked he bytes
      exact ⟨hgated, List.cons_ne_nil _ _, .inl hcheck⟩

/-! ## Pushes -/

/-- How a push answers to what the check says of all that was pushed. -/
def Answers (bytes : Bytes) (result : Except BackupErrorCode Unit) :
    Except BackupErrorCode Bool → Prop
  | .ok false => result = .ok ()
  | .error e => result = if bytes = [] then .ok () else .error e
  | .ok true => True

theorem push_gated (bytes : Bytes) (h : Gated quiet quiet pushed s.self s.world.events) :
    wp (push R afterError callbacks bytes) s
      (fun _ t => Gated quiet quiet (pushed ++ bytes) t.self t.world.events ∧
        Answers bytes (.ok ()) (checkHeader (pushed ++ bytes)))
      fun e t => Gated False quiet (pushed ++ bytes) t.self t.world.events ∧
        Answers bytes (.error e) (checkHeader (pushed ++ bytes)) := by
  rw [push, wp_bind]
  refine wp_mono (pushHeader_gated bytes s pushed h) ?_ ?_
  · rintro rest t ⟨done, rfl, ht, hrest, hdone⟩
    rw [wp_bind, wp_getSelf]
    refine wp_ite (fun hchecked => ?_) fun hchecked => ?_
    · refine wp_mono (ht.decode hchecked rest) (fun _ u hu => ?_) fun e u hu => ?_
      · rw [← List.append_assoc, (hu.1.checked hu.2).1]
        exact ⟨hu.1, trivial⟩
      · rw [← List.append_assoc, (hu.1.checked hu.2).1]
        exact ⟨hu.1, trivial⟩
    · rw [hrest.resolve_left hchecked, List.append_nil]
      refine ⟨ht, ?_⟩
      cases hcheck : checkHeader (pushed ++ done) with
      | error e =>
        have hnil : done = [] := hdone.resolve_right fun hfine => hfine e hcheck
        simp [Answers, hnil]
      | ok complete => cases complete <;> simp [Answers]
  · rintro e t ⟨ht, hne, hcheck⟩
    refine ⟨ht, ?_⟩
    obtain hcheck | hcheck := hcheck
    · simp [hcheck, Answers, hne]
    · simp [hcheck, Answers]

theorem attempt_push_gated (bytes : Bytes) (h : Gated quiet quiet pushed s.self s.world.events) :
    wp (attempt (push R afterError callbacks bytes)) s
      (fun result t => Gated (quiet ∧ result = .ok ()) quiet (pushed ++ bytes) t.self t.world.events ∧
        Answers bytes result (checkHeader (pushed ++ bytes))) fun _ _ => False := by
  rw [wp_attempt]
  refine wp_mono (push_gated bytes h) (fun _ t ht => ?_) fun e t ht => ?_
  · exact ⟨ht.1.imp And.left id, ht.2⟩
  · exact ⟨ht.1.imp (fun hquiet => by cases hquiet.2) id, ht.2⟩

def AnswersAll (pushed : Bytes) (pushes : List (Bytes × Callbacks σ))
    (results : List (Except BackupErrorCode Unit)) : Prop :=
  results.length = pushes.length ∧
    ∀ earlier bytes callbacks later, pushes = earlier ++ (bytes, callbacks) :: later →
      ∀ result ∈ results[earlier.length]?,
        Answers bytes result (checkHeader (pushed ++ (earlier.map Prod.fst).flatten ++ bytes))

theorem AnswersAll.cons {result : Except BackupErrorCode Unit} {pushes : List (Bytes × Callbacks σ)}
    {results : List (Except BackupErrorCode Unit)}
    (hfirst : Answers bytes result (checkHeader (pushed ++ bytes)))
    (h : AnswersAll (pushed ++ bytes) pushes results) :
    AnswersAll pushed ((bytes, callbacks) :: pushes) (result :: results) := by
  refine ⟨congrArg (· + 1) h.1, fun earlier bytes' callbacks' later hsplit => ?_⟩
  cases earlier with
  | nil =>
    cases hsplit
    simpa using hfirst
  | cons first earlier =>
    obtain ⟨hpush, htail⟩ := List.cons.inj hsplit
    have hlater := h.2 _ _ _ _ htail
    rw [← hpush, List.length_cons, List.getElem?_cons_succ]
    simpa only [List.map_cons, List.flatten_cons, List.append_assoc] using hlater

theorem pushAll_gated (pushes : List (Bytes × Callbacks σ)) (quiet : Prop) (pushed : Bytes)
    (s : Owning (BoundedDecoder δ) (Observed δ σ))
    (h : Gated quiet quiet pushed s.self s.world.events) :
    wp (pushAll R afterError pushes) s
      (fun results t => Gated (quiet ∧ ∀ result ∈ results, result = .ok ())
          (quiet ∧ ∀ result ∈ results.dropLast, result = .ok ())
          (pushed ++ (pushes.map Prod.fst).flatten) t.self t.world.events ∧
        AnswersAll pushed pushes results) fun _ _ => False := by
  induction pushes generalizing quiet pushed s with
  | nil =>
    rw [pushAll, wp_pure, List.map_nil, List.flatten_nil, List.append_nil]
    refine ⟨h.imp And.left And.left, rfl, fun earlier bytes callbacks later hsplit => ?_⟩
    simp at hsplit
  | cons first pushes ih =>
    obtain ⟨bytes, callbacks⟩ := first
    rw [pushAll, wp_bind]
    refine wp_mono (attempt_push_gated bytes h) (fun result t ht => ?_) fun _ _ h => h
    obtain ⟨hgated, hanswer⟩ := ht
    rw [wp_bind]
    have hrest := ih (quiet ∧ result = .ok ()) _ t (hgated.imp id And.left)
    rw [List.map_cons, List.flatten_cons, ← List.append_assoc]
    cases pushes with
    | nil =>
      rw [pushAll, wp_pure, wp_pure]
      have hlast : AnswersAll (pushed ++ bytes) ([] : List (Bytes × Callbacks σ)) [] :=
        ⟨rfl, fun earlier bytes callbacks later hsplit => by simp at hsplit⟩
      rw [List.map_nil, List.flatten_nil, List.append_nil]
      refine ⟨hgated.imp (fun hall => ⟨hall.1, ?_⟩) And.left, hlast.cons hanswer⟩
      exact hall.2 result List.mem_cons_self
    | cons second pushes =>
      refine wp_mono hrest (fun results u hu => ?_) fun _ _ h => h
      rw [wp_pure]
      refine ⟨hu.1.imp ?_ ?_, hu.2.cons hanswer⟩
      · rintro ⟨hquiet, hall⟩
        rw [List.forall_mem_cons] at hall
        exact ⟨⟨hquiet, hall.1⟩, hall.2⟩
      · rintro ⟨hquiet, hall⟩
        have hne : results ≠ [] := by
          intro hnil
          have hlength := hu.2.1
          rw [hnil] at hlength
          cases hlength
        rw [List.dropLast_cons_of_ne_nil hne, List.forall_mem_cons] at hall
        exact ⟨⟨hquiet, hall.1⟩, hall.2⟩

end gate

end Bounded

/-- **The gate**, for every stream and every split of it into pushes, whatever the raw decoder and
the callbacks do. The raw decoder runs only behind a header that the check has accepted, and until
then the bytes are kept. As long as no push has failed the raw decoder is given the stream in order and
without a gap, and after each push it has read all of it; after failures it still reads no byte twice
and none out of order. What the check says depends on the first fourteen bytes, the decoder and each
push answer to it, and no step of the check fails in machine words. -/
theorem header_gate (R : RawDecoder δ) (afterError : δ → Bytes → ℕ → δ) (decoder : δ)
    (pushes : List (Bytes × Callbacks σ)) (foreign : σ) :
    let r := (Bounded.pushAll R afterError pushes).run ⟨BoundedDecoder.fresh decoder, foreign, []⟩
    let stream := (pushes.map Prod.fst).flatten
    let events := (final r).world.events
    (checkHeader stream = .ok true ↔
      ∃ fh, FrameHeader.parse stream = some fh ∧ GoodHeader fh) ∧
    (checkHeader stream ≠ .ok true → events = []) ∧
    (checkHeader stream = .ok false → (final r).self.header = stream) ∧
    ((final r).self.headerChecked = true ↔ checkHeader stream = .ok true) ∧
    (∀ results, outcome r = .ok results →
      Bounded.AnswersAll [] pushes results ∧
      ((∀ result ∈ results, result = .ok ()) → checkHeader stream = .ok true →
        Bounded.consumed events = stream) ∧
      ((∀ result ∈ results.dropLast, result = .ok ()) →
        ∀ before total capacity input status after,
          events = before ++ .ran total capacity input status :: after →
            Bounded.consumed before ++ input <+: stream ∧
            ∃ fh, FrameHeader.parse stream = some fh ∧ GoodHeader fh ∧
              fh.length ≤ (Bounded.consumed before ++ input).length)) ∧
    (Bounded.consumed events).Sublist stream ∧
    checkHeader (stream.take 14) = checkHeader stream ∧
    ∀ header, checkHeaderInWords header = some (checkHeader header) := by
  intro r stream events
  obtain ⟨results, t, hr, hgated, hanswers⟩ : ∃ results t, r = .ok results t ∧ _ := exists_run_of_wp
    (Bounded.pushAll_gated pushes True [] ⟨BoundedDecoder.fresh decoder, foreign, []⟩
      (Bounded.fresh_gated decoder))
  have hself : (final r).self = t.self := by rw [hr]; rfl
  have hevents : events = t.world.events := by unfold events; rw [hr]; rfl
  rw [List.nil_append] at hgated
  have hchecked : t.self.headerChecked = true ↔ checkHeader stream = .ok true := by
    refine ⟨fun h => (hgated.checked h).1, fun h => ?_⟩
    by_contra hfalse
    exact (hgated.waiting (Bool.eq_false_iff.mpr hfalse)).2.2 h
  have hwaiting : checkHeader stream ≠ .ok true → t.self.headerChecked = false := fun h =>
    Bool.eq_false_iff.mpr fun htrue => h (hchecked.mp htrue)
  rw [hself, hevents]
  refine ⟨checkHeader_eq_ok_true_iff, fun h => (hgated.waiting (hwaiting h)).1,
    fun h => hgated.kept (hwaiting (by rw [h]; simp)) h, hchecked, fun results' hresults => ?_,
    (List.sublist_append_left _ _).trans hgated.inOrder, checkHeader_take stream,
    checkHeaderInWords_eq⟩
  rw [hr] at hresults
  obtain rfl : results = results' := Except.ok.inj hresults
  refine ⟨hanswers, fun hall hcheck => ?_, fun hall => ?_⟩
  · exact hgated.exact ⟨trivial, hall⟩ (hchecked.mpr hcheck)
  · exact hgated.inputs ⟨trivial, hall⟩

end KChat.Backup
