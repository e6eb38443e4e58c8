import KChat.Backup.Threads
import KChat.Lib.Record

/-!
# What the two threads do together

* `ThreadEvent.Proper`: what the worker may do after what; `Sound`: the state fits the record.
* `JsCall.after_spec`: what an event does to a call; **`meanwhile_sound`**: the JavaScript thread
  keeps the state sound, whatever it does.
* `lookCancelled_spec`, `lookClosed_spec`, `receive_spec`, **`callFunction_spec`**: the steps of the
  worker; a call is never refused for a full queue.
-/

namespace KChat.Backup.Napi

open Lib

variable {t t' : Threads}

/-! ## The record -/

/-- The worker has the answer to a call, or knows that there will be none. -/
def Over (log : List ThreadEvent) (call : ℕ) : Prop :=
  (∃ result, .received call result ∈ log) ∨ .disconnected call ∈ log

/-- What the JavaScript thread has answered to a call. -/
def Answered (log : List ThreadEvent) (call : ℕ) (callback : JsCallback)
    (result : Except BackupErrorCode Bytes) : Prop :=
  (∃ value, .js (.on call (.resolve value)) ∈ log ∧ result = callback.settled value) ∨
    (.js (.on call .reject) ∈ log ∨ .js (.on call (.start false)) ∈ log) ∧ result = .error .ioError

/-- A function that is called again has answered before, or was aborted. -/
def Settled (log : List ThreadEvent) (call : ℕ) (callback : JsCallback) : Prop :=
  Over log call ∨ .js (.abort callback.function) ∈ log

/-- The record has grown by events of one kind. -/
def Grown (P : ThreadEvent → Prop) (log log' : List ThreadEvent) : Prop :=
  ∃ extra, log' = log ++ extra ∧ ∀ event ∈ extra, P event

namespace ThreadEvent

def IsJs : ThreadEvent → Prop
  | js _ => True
  | _ => False

def NoCall : ThreadEvent → Prop
  | called _ _ => False
  | _ => True

def Quiet : ThreadEvent → Prop
  | called _ _ | received _ _ | disconnected _ => False
  | _ => True

theorem IsJs.quiet {event : ThreadEvent} (h : event.IsJs) : event.Quiet := by
  cases event with
  | js event => trivial
  | _ => exact h.elim

theorem Quiet.noCall {event : ThreadEvent} (h : event.Quiet) : event.NoCall := by
  cases event with
  | called call callback => exact h.elim
  | _ => trivial

def isTimeout (call : ℕ) : ThreadEvent → Bool
  | timedOut other => other == call
  | _ => false

/-- The last thing that the worker has done is to look, and it was not cancelled. -/
def LookedLast (log : List ThreadEvent) : Prop :=
  ∃ before, Grown IsJs (before ++ [looked false]) log

/-- **What may come after `before`.** The JavaScript thread may do what it likes. The worker learns
what has happened, and calls a function only if it was not cancelled when it last looked and all its
calls are settled; it hands over, or asks for, no more than a chunk. -/
def Proper (before : List ThreadEvent) : ThreadEvent → Prop
  | js _ => True
  | looked cancelled => cancelled = true ↔ .js .cancel ∈ before
  | called call callback => callback.size ≤ maxIoChunkBytesV1 ∧ LookedLast before ∧
      ∀ other callback', .called other callback' ∈ before →
        other ≠ call ∧ Settled before other callback'
  | refused callback => .js (.abort callback.function) ∈ before
  | closed call answer => ∃ callback, .called call callback ∈ before ∧
      (answer = true ↔ .js (.abort callback.function) ∈ before)
  | received call result => ¬Over before call ∧
      ∃ callback, .called call callback ∈ before ∧ Answered before call callback result
  | timedOut call => (∃ callback, .called call callback ∈ before) ∧
      ∀ event, .js (.on call event) ∈ before → event = .start true
  | disconnected call => .js (.on call .drop) ∈ before

end ThreadEvent

namespace Grown

variable {P Q : ThreadEvent → Prop} {log log' log'' : List ThreadEvent} {event : ThreadEvent}

theorem refl (log : List ThreadEvent) : Grown P log log := ⟨[], by simp, by simp⟩

theorem trans (h : Grown P log log') (h' : Grown P log' log'') : Grown P log log'' := by
  obtain ⟨extra, rfl, hextra⟩ := h
  obtain ⟨extra', rfl, hextra'⟩ := h'
  refine ⟨extra ++ extra', List.append_assoc _ _ _, fun event hmem => ?_⟩
  exact (List.mem_append.mp hmem).elim (hextra event) (hextra' event)

theorem mono (h : Grown P log log') (hPQ : ∀ event, P event → Q event) : Grown Q log log' := by
  obtain ⟨extra, rfl, hextra⟩ := h
  exact ⟨extra, rfl, fun event hmem => hPQ event (hextra event hmem)⟩

theorem append (log : List ThreadEvent) (h : P event) : Grown P log (log ++ [event]) :=
  ⟨[event], rfl, fun _ hmem => List.mem_singleton.mp hmem ▸ h⟩

theorem subset (h : Grown P log log') : log ⊆ log' := by
  obtain ⟨extra, rfl, -⟩ := h
  exact List.subset_append_left _ _

theorem mem_of_not (h : Grown P log log') (hmem : event ∈ log') (hP : ¬P event) : event ∈ log := by
  obtain ⟨extra, rfl, hextra⟩ := h
  exact (List.mem_append.mp hmem).resolve_right fun hnew => hP (hextra event hnew)

/-- While the worker gets no answer, no call is over that was not. -/
theorem over_iff (h : Grown ThreadEvent.Quiet log log') {call : ℕ} :
    Over log' call ↔ Over log call := by
  constructor
  · rintro (⟨result, hmem⟩ | hmem)
    · exact .inl ⟨result, h.mem_of_not hmem id⟩
    · exact .inr (h.mem_of_not hmem id)
  · rintro (⟨result, hmem⟩ | hmem)
    · exact .inl ⟨result, h.subset hmem⟩
    · exact .inr (h.subset hmem)

end Grown

/-! ## The state fits the record -/

/-- A call fits the record. -/
structure JsCall.Sound (c : JsCall) (log : List ThreadEvent) (call : ℕ) : Prop where
  called : .called call c.callback ∈ log
  silent : c.buffer = none → c.stage ≠ .dropped →
    ∀ event, .js (.on call event) ∈ log → event = .start true
  sent : ∀ result, c.buffer = some result → Answered log call c.callback result
  dropped : c.stage = .dropped → .js (.on call .drop) ∈ log
  queued : c.stage = .queued → c.buffer = none

/-- **The state fits the record.** -/
structure Sound (t : Threads) : Prop where
  proper : Allowed (fun before event => event.Proper before) t.log
  cancelled : t.cancelled = true ↔ .js .cancel ∈ t.log
  aborted : ∀ function, t.aborted function = true ↔ .js (.abort function) ∈ t.log
  calls : ∀ call (c : JsCall), t.calls[call]? = some c → c.Sound t.log call
  known : ∀ call callback, .called call callback ∈ t.log →
    ∃ c, t.calls[call]? = some c ∧ c.callback = callback
  events : ∀ call event, .js (.on call event) ∈ t.log → call < t.calls.length
  ended : ∀ call, Over t.log call → ∃ c, t.calls[call]? = some c ∧ c.stage ≠ .queued

theorem sound_new : Sound .new where
  proper := allowed_nil
  cancelled := by simp [Threads.new]
  aborted := by simp [Threads.new]
  calls := by simp [Threads.new]
  known := by simp [Threads.new]
  events := by simp [Threads.new]
  ended := by simp [Threads.new, Over]

theorem Answered.mono {log log' : List ThreadEvent} (h : log ⊆ log') {call : ℕ}
    {callback : JsCallback} {result : Except BackupErrorCode Bytes}
    (ha : Answered log call callback result) : Answered log' call callback result := by
  obtain ⟨value, hmem, hresult⟩ | ⟨hmem, hresult⟩ := ha
  · exact .inl ⟨value, h hmem, hresult⟩
  · exact .inr ⟨hmem.imp (fun hm => h hm) fun hm => h hm, hresult⟩

/-- What happens elsewhere does not concern a call. -/
theorem JsCall.Sound.mono {c : JsCall} {log log' : List ThreadEvent} {call : ℕ}
    (h : c.Sound log call) (hsub : log ⊆ log')
    (hevents : ∀ event, .js (.on call event) ∈ log' → .js (.on call event) ∈ log) :
    c.Sound log' call where
  called := hsub h.called
  silent hbuffer hstage event hmem := h.silent hbuffer hstage event (hevents event hmem)
  sent result hresult := (h.sent result hresult).mono hsub
  dropped hstage := hsub (h.dropped hstage)
  queued := h.queued

/-! ### The JavaScript thread -/

/-- **What an event does to a call.** -/
structure JsCall.AfterSpec (c : JsCall) (event : CallEvent) (c' : JsCall) : Prop where
  callback : c'.callback = c.callback
  stage : c'.stage ≠ .queued
  dropped : c'.stage = .dropped → event = .drop
  silent : c'.buffer = none → c'.stage ≠ .dropped →
    c.buffer = none ∧ c.stage ≠ .dropped ∧ event = .start true
  sent : ∀ result, c'.buffer = some result → c.buffer = some result ∨
    (∃ value, event = .resolve value ∧ result = c.callback.settled value) ∨
      (event = .reject ∨ event = .start false) ∧ result = .error .ioError

theorem JsCall.trySend_callback (c : JsCall) (result : Except BackupErrorCode Bytes) :
    (c.trySend result).callback = c.callback := by
  unfold trySend
  split <;> rfl

theorem JsCall.trySend_stage (c : JsCall) (result : Except BackupErrorCode Bytes) :
    (c.trySend result).stage = c.stage := by
  unfold trySend
  split <;> rfl

theorem JsCall.trySend_buffer (c : JsCall) (result : Except BackupErrorCode Bytes) :
    (c.trySend result).buffer = some (c.buffer.getD result) := by
  unfold trySend
  split
  · rename_i h
    simp [h]
  · rename_i h
    obtain ⟨r, hr⟩ := Option.ne_none_iff_exists'.mp h
    simp [hr]

theorem JsCall.sent_of_trySend {c : JsCall} {answer result : Except BackupErrorCode Bytes}
    (h : (c.trySend answer).buffer = some result) : c.buffer = some result ∨ result = answer := by
  rw [trySend_buffer, Option.some.injEq] at h
  cases hbuffer : c.buffer with
  | none =>
    rw [hbuffer] at h
    exact .inr h.symm
  | some r =>
    rw [hbuffer] at h
    exact .inl (congrArg some h)

theorem JsCall.trySend_ne_none (c : JsCall) (result : Except BackupErrorCode Bytes) :
    (c.trySend result).buffer ≠ none := by
  rw [trySend_buffer]
  exact Option.some_ne_none _

theorem JsCall.afterSpec_trySend {c : JsCall} {event : CallEvent}
    {answer : Except BackupErrorCode Bytes}
    (h : (∃ value, event = .resolve value ∧ answer = c.callback.settled value) ∨
      (event = .reject ∨ event = .start false) ∧ answer = .error .ioError) :
    c.AfterSpec event ({ c with stage := .started }.trySend answer) where
  callback := trySend_callback _ _
  stage := by simp [trySend_stage]
  dropped hstage := by simp [trySend_stage] at hstage
  silent hbuffer := absurd hbuffer (trySend_ne_none _ _)
  sent result hresult := by
    obtain hold | rfl := sent_of_trySend hresult
    · exact .inl hold
    · exact .inr h

theorem JsCall.after_spec {c c' : JsCall} {event : CallEvent} (h : c.after event = some c') :
    c.AfterSpec event c' := by
  -- what was sent to a call in its stage
  have hstarted : c.stage = .started → { c with stage := .started } = c := by
    intro hstage
    rw [← hstage]
  cases event with
  | start attached =>
    simp only [after] at h
    split_ifs at h with hstage hattached
    · obtain rfl := Option.some.inj h
      subst hattached
      exact ⟨rfl, by simp, by simp, fun hb _ => ⟨hb, by simp [hstage], rfl⟩, fun _ h => .inl h⟩
    · obtain rfl := Option.some.inj h
      obtain rfl : attached = false := by simpa using hattached
      exact afterSpec_trySend (.inr ⟨.inr rfl, rfl⟩)
  | resolve value =>
    simp only [after] at h
    split_ifs at h with hstage
    obtain rfl := Option.some.inj h
    have hspec := afterSpec_trySend (c := c) (.inl ⟨value, rfl, rfl⟩)
    rwa [hstarted hstage] at hspec
  | reject =>
    simp only [after] at h
    split_ifs at h with hstage
    obtain rfl := Option.some.inj h
    have hspec := afterSpec_trySend (c := c) (.inr ⟨.inl rfl, rfl⟩)
    rwa [hstarted hstage] at hspec
  | drop =>
    obtain rfl := Option.some.inj h
    exact ⟨rfl, by simp, fun _ => rfl, fun _ hs => absurd rfl hs, fun _ h => .inl h⟩

theorem JsCall.Sound.after {c c' : JsCall} {log : List ThreadEvent} {call : ℕ} {event : CallEvent}
    (h : c.Sound log call) (hafter : c.after event = some c') :
    c'.Sound (log ++ [.js (.on call event)]) call := by
  have hspec := after_spec hafter
  have hsub : log ⊆ log ++ [.js (.on call event)] := List.subset_append_left _ _
  have hlast : ThreadEvent.js (.on call event) ∈ log ++ [.js (.on call event)] := by simp
  refine ⟨?_, fun hbuffer hstage other hmem => ?_, fun result hresult => ?_, fun hstage => ?_,
    fun hstage => absurd hstage hspec.stage⟩
  · rw [hspec.callback]
    exact hsub h.called
  · obtain ⟨hbuffer, hstage, rfl⟩ := hspec.silent hbuffer hstage
    rcases List.mem_append.mp hmem with hmem | hmem
    · exact h.silent hbuffer hstage other hmem
    · cases List.mem_singleton.mp hmem
      rfl
  · rw [hspec.callback]
    obtain hold | ⟨value, rfl, hvalue⟩ | ⟨hevent, hvalue⟩ := hspec.sent result hresult
    · exact (h.sent result hold).mono hsub
    · exact .inl ⟨value, hlast, hvalue⟩
    · refine .inr ⟨?_, hvalue⟩
      rcases hevent with rfl | rfl
      · exact .inl hlast
      · exact .inr hlast
  · obtain rfl := hspec.dropped hstage
    exact hlast

section happens

variable {event : JsEvent}

theorem js_quiet : (ThreadEvent.js event).Quiet := trivial

theorem js_mem_append {other : ThreadEvent} {log : List ThreadEvent} (h : other ≠ .js event) :
    other ∈ log ++ [.js event] ↔ other ∈ log := by
  simp [h]

/-- The calls of a state that something other than a call happens to. -/
theorem Sound.calls_append (h : Sound t) (hevent : ∀ call e, event ≠ .on call e) {call : ℕ}
    {c : JsCall} (hc : t.calls[call]? = some c) : c.Sound (t.log ++ [.js event]) call := by
  apply (h.calls call c hc).mono (List.subset_append_left _ _)
  intro e hmem
  refine (js_mem_append fun heq => hevent call e ?_).mp hmem
  exact (ThreadEvent.js.inj heq).symm

theorem cancel_sound (h : Sound t) : Sound (t.happens .cancel) where
  proper := h.proper.concat trivial
  cancelled := by simp [Threads.happens, Threads.note]
  aborted function := (h.aborted function).trans (js_mem_append (by simp)).symm
  calls call c hc := h.calls_append (by simp) hc
  known call callback hmem := h.known call callback ((js_mem_append (by simp)).mp hmem)
  events call e hmem := h.events call e ((js_mem_append (by simp)).mp hmem)
  ended call hover := h.ended call ((Grown.append t.log js_quiet).over_iff.mp hover)

theorem abort_sound (h : Sound t) (function : JsFunction) :
    Sound (t.happens (.abort function)) where
  proper := h.proper.concat trivial
  cancelled := h.cancelled.trans (js_mem_append (by simp)).symm
  aborted f := by
    simp only [Threads.happens, Threads.note, Bool.or_eq_true, beq_iff_eq, h.aborted,
      List.mem_append, List.mem_singleton, ThreadEvent.js.injEq, JsEvent.abort.injEq]
  calls call c hc := h.calls_append (by simp) hc
  known call callback hmem := h.known call callback ((js_mem_append (by simp)).mp hmem)
  events call e hmem := h.events call e ((js_mem_append (by simp)).mp hmem)
  ended call hover := h.ended call ((Grown.append t.log js_quiet).over_iff.mp hover)

theorem on_sound (h : Sound t) {call : ℕ} {e : CallEvent} {c c' : JsCall}
    (hc : t.calls[call]? = some c) (hafter : c.after e = some c') :
    Sound ({ t with calls := t.calls.set call c' }.note (.js (.on call e))) := by
  have hspec := JsCall.after_spec hafter
  have hlt : call < t.calls.length := (List.getElem?_eq_some_iff.mp hc).1
  have hself : (t.calls.set call c')[call]? = some c' := List.getElem?_set_self hlt
  have hother : ∀ {k}, k ≠ call → (t.calls.set call c')[k]? = t.calls[k]? :=
    fun hk => List.getElem?_set_ne (Ne.symm hk)
  refine ⟨h.proper.concat trivial, h.cancelled.trans (js_mem_append (by simp)).symm,
    fun function => (h.aborted function).trans (js_mem_append (by simp)).symm,
    fun k d hd => ?_, fun k callback hmem => ?_, fun k e' hmem => ?_, fun k hover => ?_⟩
  · change (t.calls.set call c')[k]? = some d at hd
    change d.Sound (t.log ++ [.js (.on call e)]) k
    by_cases hk : k = call
    · subst hk
      rw [hself, Option.some.injEq] at hd
      exact hd ▸ (h.calls k c hc).after hafter
    · rw [hother hk] at hd
      apply (h.calls k d hd).mono (List.subset_append_left _ _)
      intro e' hmem
      exact (js_mem_append fun heq => hk (by cases heq; rfl)).mp hmem
  · obtain ⟨d, hd, rfl⟩ := h.known k callback ((js_mem_append (by simp)).mp hmem)
    change ∃ d', (t.calls.set call c')[k]? = some d' ∧ d'.callback = d.callback
    by_cases hk : k = call
    · subst hk
      obtain rfl := Option.some.inj (hc.symm.trans hd)
      exact ⟨c', hself, hspec.callback⟩
    · exact ⟨d, (hother hk).trans hd, rfl⟩
  · change k < (t.calls.set call c').length
    rw [List.length_set]
    rcases List.mem_append.mp hmem with hmem | hmem
    · exact h.events k e' hmem
    · cases List.mem_singleton.mp hmem
      exact hlt
  · obtain ⟨d, hd, hstage⟩ := h.ended k ((Grown.append t.log js_quiet).over_iff.mp hover)
    change ∃ d', (t.calls.set call c')[k]? = some d' ∧ d'.stage ≠ .queued
    by_cases hk : k = call
    · subst hk
      exact ⟨c', hself, hspec.stage⟩
    · exact ⟨d, (hother hk).trans hd, hstage⟩

/-- **A step of the JavaScript thread.** -/
theorem happens_sound (h : Sound t) (event : JsEvent) :
    Sound (t.happens event) ∧ Grown ThreadEvent.IsJs t.log (t.happens event).log ∧
      (t.happens event).hung = t.hung := by
  cases event with
  | cancel => exact ⟨cancel_sound h, Grown.append _ trivial, rfl⟩
  | abort function => exact ⟨abort_sound h function, Grown.append _ trivial, rfl⟩
  | on call e =>
    simp only [Threads.happens]
    split
    · rename_i c' hafter
      obtain ⟨c, hc, hafter⟩ := Option.bind_eq_some_iff.mp hafter
      exact ⟨on_sound h hc hafter, Grown.append _ trivial, rfl⟩
    · exact ⟨h, Grown.refl _, rfl⟩

/-- **Its turn.** -/
theorem meanwhile_sound (js : Javascript) (h : Sound t) :
    Sound (meanwhile js t) ∧ Grown ThreadEvent.IsJs t.log (meanwhile js t).log ∧
      (meanwhile js t).hung = t.hung := by
  unfold meanwhile
  generalize js t.log = events
  induction events generalizing t with
  | nil => exact ⟨h, Grown.refl _, rfl⟩
  | cons event events ih =>
    obtain ⟨hsound, hgrown, hhung⟩ := happens_sound h event
    obtain ⟨hsound', hgrown', hhung'⟩ := ih hsound
    exact ⟨hsound', hgrown.trans hgrown', hhung'.trans hhung⟩

end happens

/-! ### The worker -/

/-- An event of the worker that fits the state. -/
theorem Sound.note (h : Sound t) {event : ThreadEvent} (hproper : event.Proper t.log)
    (hjs : ¬event.IsJs) (hcall : event.NoCall)
    (hover : ∀ call, Over (t.log ++ [event]) call → Over t.log call ∨
      ∃ c, t.calls[call]? = some c ∧ c.stage ≠ .queued) : Sound (t.note event) := by
  have hold : ∀ {e}, .js e ∈ (t.note event).log ↔ .js e ∈ t.log := by
    intro e
    simp only [Threads.note, List.mem_append, List.mem_singleton, or_iff_left_iff_imp]
    rintro rfl
    exact absurd trivial hjs
  refine ⟨h.proper.concat hproper, h.cancelled.trans hold.symm,
    fun function => (h.aborted function).trans hold.symm, fun call c hc => ?_,
    fun call callback hmem => ?_, fun call e hmem => h.events call e (hold.mp hmem),
    fun call hcall => (hover call hcall).elim (h.ended call) id⟩
  · exact (h.calls call c hc).mono (List.subset_append_left _ _) fun e hmem => hold.mp hmem
  · apply h.known
    exact (Grown.append t.log hcall).mem_of_not hmem id

theorem Sound.note_quiet (h : Sound t) {event : ThreadEvent} (hproper : event.Proper t.log)
    (hjs : ¬event.IsJs) (hquiet : event.Quiet) : Sound (t.note event) :=
  h.note hproper hjs hquiet.noCall fun _ hover =>
    .inl ((Grown.append t.log hquiet).over_iff.mp hover)

/-- A step of the worker, after a turn of the JavaScript thread. -/
structure Later (P : ThreadEvent → Prop) (t t' : Threads) : Prop where
  sound : Sound t'
  grown : Grown P t.log t'.log
  hung : t'.hung = t.hung

theorem later_note {js : Javascript} (h : Sound t) {event : ThreadEvent}
    (hproper : event.Proper (meanwhile js t).log) (hjs : ¬event.IsJs) (hquiet : event.Quiet) :
    Later ThreadEvent.Quiet t ((meanwhile js t).note event) := by
  obtain ⟨hsound, hgrown, hhung⟩ := meanwhile_sound js h
  refine ⟨hsound.note_quiet hproper hjs hquiet, ?_, hhung⟩
  exact (hgrown.mono fun _ h => h.quiet).trans (Grown.append _ hquiet)

def Ready (log : List ThreadEvent) : Prop :=
  ∀ call callback, .called call callback ∈ log → Settled log call callback

def ReadyBut (log : List ThreadEvent) (call : ℕ) : Prop :=
  ∀ other callback, .called other callback ∈ log → other ≠ call → Settled log other callback

/-- All calls are settled, or the worker will see that it is cancelled. -/
def Idle (log : List ThreadEvent) : Prop := .js .cancel ∈ log ∨ Ready log

section log

variable {log log' : List ThreadEvent} {call : ℕ} {callback : JsCallback}

theorem Over.mono (hsub : log ⊆ log') (h : Over log call) : Over log' call := by
  obtain ⟨result, hmem⟩ | hmem := h
  · exact .inl ⟨result, hsub hmem⟩
  · exact .inr (hsub hmem)

theorem Settled.mono (hsub : log ⊆ log') (h : Settled log call callback) :
    Settled log' call callback := h.imp (fun h => h.mono hsub) fun h => hsub h

theorem Ready.mono (h : Ready log) (hgrown : Grown ThreadEvent.NoCall log log') : Ready log' :=
  fun call callback hmem =>
    (h call callback (hgrown.mem_of_not hmem id)).mono hgrown.subset

theorem ReadyBut.mono (h : ReadyBut log call) (hgrown : Grown ThreadEvent.NoCall log log') :
    ReadyBut log' call := fun other callback hmem hne =>
  (h other callback (hgrown.mem_of_not hmem id) hne).mono hgrown.subset

theorem ReadyBut.ready (h : ReadyBut log call)
    (hcall : ∀ callback, .called call callback ∈ log → Settled log call callback) : Ready log := by
  intro other callback hmem
  by_cases heq : other = call
  · exact heq ▸ hcall callback (heq ▸ hmem)
  · exact h other callback hmem heq

theorem Idle.ready (h : Idle log) (hcancel : .js .cancel ∉ log) : Ready log :=
  h.resolve_left hcancel

end log

theorem Sound.callback_eq (h : Sound t) {call : ℕ} {callback callback' : JsCallback}
    (hcall : .called call callback ∈ t.log) (hcall' : .called call callback' ∈ t.log) :
    callback' = callback := by
  obtain ⟨c, hc, rfl⟩ := h.known call callback hcall
  obtain ⟨c', hc', rfl⟩ := h.known call callback' hcall'
  obtain rfl := Option.some.inj (hc.symm.trans hc')
  rfl

section steps

variable (js : Javascript)

theorem lookCancelled_spec (h : Sound t) : wp (lookCancelled js) t
    (fun answer t' => Later ThreadEvent.Quiet t t' ∧ (answer = true → .js .cancel ∈ t'.log) ∧
      (answer = false → .js .cancel ∉ t'.log ∧ ThreadEvent.LookedLast t'.log))
    fun _ _ => False := by
  have hsound := (meanwhile_sound js h).1
  change Later _ t ((meanwhile js t).note (.looked (meanwhile js t).cancelled)) ∧ _ ∧ _
  refine ⟨later_note h hsound.cancelled id trivial, fun hanswer => ?_, fun hanswer => ⟨?_, ?_⟩⟩
  · exact List.mem_append_left _ (hsound.cancelled.mp hanswer)
  · intro hmem
    rcases List.mem_append.mp hmem with hmem | hmem
    · cases hanswer.symm.trans (hsound.cancelled.mpr hmem)
    · cases List.mem_singleton.mp hmem
  · rw [hanswer]
    exact ⟨(meanwhile js t).log, Grown.refl _⟩

theorem lookClosed_spec (h : Sound t) {call : ℕ} {callback : JsCallback}
    (hcall : .called call callback ∈ t.log) : wp (lookClosed js call callback) t
      (fun answer t' => Later ThreadEvent.Quiet t t' ∧
        (answer = true → .js (.abort callback.function) ∈ t'.log)) fun _ _ => False := by
  obtain ⟨hsound, hgrown, -⟩ := meanwhile_sound js h
  have haborted := hsound.aborted callback.function
  change Later _ t ((meanwhile js t).note (.closed call _)) ∧ _
  refine ⟨later_note h ⟨callback, hgrown.subset hcall, haborted⟩ id trivial, fun hanswer => ?_⟩
  exact List.mem_append_left _ (haborted.mp hanswer)

/-- How often the worker has waited in vain for a call. -/
def waits (call : ℕ) (log : List ThreadEvent) : ℕ :=
  log.countP fun event => event.isTimeout call

theorem waits_mono {P : ThreadEvent → Prop} {log log' : List ThreadEvent} (h : Grown P log log')
    (call : ℕ) : waits call log ≤ waits call log' := by
  obtain ⟨extra, rfl, -⟩ := h
  simp only [waits, List.countP_append]
  omega

/-- What the worker knows after a reply. -/
def Reply.Says (call : ℕ) (log log' : List ThreadEvent) : Reply → Prop
  | answer result => .received call result ∈ log'
  | timeout => ¬Over log' call ∧ waits call log + 1 ≤ waits call log'
  | disconnected => .disconnected call ∈ log'

theorem receive_spec (h : Sound t) {call : ℕ} {callback : JsCallback}
    (hcall : .called call callback ∈ t.log) (hover : ¬Over t.log call) :
    wp (receive js call) t (fun reply t' => Later ThreadEvent.NoCall t t' ∧
      reply.Says call t.log t'.log) fun _ _ => False := by
  obtain ⟨hsound, hgrown, hhung⟩ := meanwhile_sound js h
  have hquiet : Grown ThreadEvent.Quiet t.log (meanwhile js t).log :=
    hgrown.mono fun _ h => h.quiet
  have hnot : ¬Over (meanwhile js t).log call := fun ho => hover (hquiet.over_iff.mp ho)
  obtain ⟨c, hc, -⟩ := hsound.known call callback (hgrown.subset hcall)
  have hfits := hsound.calls call c hc
  -- an answer is noted with the call that it is for
  have hlater : ∀ event : ThreadEvent, event.Proper (meanwhile js t).log → ¬event.IsJs →
      event.NoCall → (∀ k, Over ((meanwhile js t).log ++ [event]) k →
        Over (meanwhile js t).log k ∨ k = call ∧ c.stage ≠ .queued) →
      Later ThreadEvent.NoCall t ((meanwhile js t).note event) := by
    intro event hproper hjs hno hk
    refine ⟨hsound.note hproper hjs hno fun k hover => ?_, ?_, hhung⟩
    · exact (hk k hover).imp id fun ⟨heq, hstage⟩ => ⟨c, heq ▸ hc, hstage⟩
    · exact (hquiet.mono fun _ h => h.noCall).trans (Grown.append _ hno)
  obtain ⟨callback, stage, buffer⟩ := c
  cases buffer with
  | some result =>
    have hrun : (receive js call).run t =
        .ok (.answer result) ((meanwhile js t).note (.received call result)) := by
      change receive js call t = _
      simp only [receive, hc]
    rw [wp_of_ok hrun]
    refine ⟨hlater _ ⟨hnot, _, hfits.called, hfits.sent _ rfl⟩ id trivial fun k hover => ?_, ?_⟩
    · obtain ⟨result', hmem⟩ | hmem := hover
      · rcases List.mem_append.mp hmem with hmem | hmem
        · exact .inl (.inl ⟨result', hmem⟩)
        · cases List.mem_singleton.mp hmem
          exact .inr ⟨rfl, fun hstage => by cases hfits.queued hstage⟩
      · exact .inl (.inr ((List.mem_append.mp hmem).resolve_right (by simp)))
    · exact List.mem_append_right _ List.mem_cons_self
  | none =>
    have hwaited : stage ≠ .dropped → (receive js call).run t =
        .ok .timeout ((meanwhile js t).note (.timedOut call)) := by
      intro hstage
      change receive js call t = _
      cases stage <;> simp only [receive, hc]
      exact absurd rfl hstage
    have htimeout : stage ≠ .dropped → Later ThreadEvent.NoCall t
        ((meanwhile js t).note (.timedOut call)) ∧
          Reply.timeout.Says call t.log ((meanwhile js t).note (.timedOut call)).log := by
      intro hstage
      have hlast : Grown ThreadEvent.Quiet (meanwhile js t).log
          ((meanwhile js t).log ++ [.timedOut call]) := Grown.append _ trivial
      refine ⟨hlater _ ⟨⟨_, hfits.called⟩, hfits.silent rfl hstage⟩ id trivial fun k hover => ?_,
        fun hover => hnot (hlast.over_iff.mp hover), ?_⟩
      · exact .inl (hlast.over_iff.mp hover)
      · have hle := waits_mono hgrown call
        simp only [Threads.note, waits, List.countP_append] at hle ⊢
        simpa [ThreadEvent.isTimeout] using hle
    cases stage with
    | queued => exact (wp_of_ok (hwaited (by simp))).mpr (htimeout (by simp))
    | started => exact (wp_of_ok (hwaited (by simp))).mpr (htimeout (by simp))
    | dropped =>
      have hrun : (receive js call).run t =
          .ok .disconnected ((meanwhile js t).note (.disconnected call)) := by
        change receive js call t = _
        simp only [receive, hc]
      rw [wp_of_ok hrun]
      refine ⟨hlater _ (hfits.dropped rfl) id trivial fun k hover => ?_, ?_⟩
      · obtain ⟨result', hmem⟩ | hmem := hover
        · exact .inl (.inl ⟨result', (List.mem_append.mp hmem).resolve_right (by simp)⟩)
        · rcases List.mem_append.mp hmem with hmem | hmem
          · exact .inl (.inr hmem)
          · cases List.mem_singleton.mp hmem
            exact .inr ⟨rfl, by simp⟩
      · exact List.mem_append_right _ List.mem_cons_self

theorem over_of_called {log : List ThreadEvent} {call k : ℕ} {callback : JsCallback}
    (h : Over (log ++ [.called call callback]) k) : Over log k := by
  obtain ⟨result, hmem⟩ | hmem := h
  · exact .inl ⟨result, (List.mem_append.mp hmem).resolve_right (by simp)⟩
  · exact .inr ((List.mem_append.mp hmem).resolve_right (by simp))

theorem sound_called (h : Sound t) {callback : JsCallback}
    (hproper : (ThreadEvent.called t.calls.length callback).Proper t.log) :
    Sound ((t.enqueue callback).note (.called t.calls.length callback)) := by
  have hjs : ∀ {e : JsEvent},
      .js e ∈ t.log ++ [.called t.calls.length callback] ↔ .js e ∈ t.log := by
    simp
  have hold : ∀ {k : ℕ} {c : JsCall}, t.calls[k]? = some c →
      (t.enqueue callback).calls[k]? = some c := by
    intro k c hc
    exact (List.getElem?_append_left (List.getElem?_eq_some_iff.mp hc).1).trans hc
  have hnew : (t.enqueue callback).calls[t.calls.length]? =
      some { callback := callback, stage := .queued, buffer := none } := List.getElem?_concat_length
  refine ⟨h.proper.concat hproper, h.cancelled.trans hjs.symm,
    fun function => (h.aborted function).trans hjs.symm, fun k c hc => ?_,
    fun k callback' hmem => ?_, fun k e hmem => ?_, fun k hover => ?_⟩
  · change (t.enqueue callback).calls[k]? = some c at hc
    obtain hk | hk := lt_or_ge k t.calls.length
    · rw [Threads.enqueue, List.getElem?_append_left hk] at hc
      exact (h.calls k c hc).mono (List.subset_append_left _ _) fun e hmem => hjs.mp hmem
    · obtain rfl : k = t.calls.length := by
        have hlt := (List.getElem?_eq_some_iff.mp hc).1
        rw [Threads.enqueue, List.length_append, List.length_singleton] at hlt
        omega
      obtain rfl := Option.some.inj (hnew.symm.trans hc)
      refine ⟨List.mem_append_right _ List.mem_cons_self, fun _ _ e hmem => ?_, by simp, by simp,
        fun _ => rfl⟩
      exact absurd (h.events _ e (hjs.mp hmem)) (lt_irrefl _)
  · rcases List.mem_append.mp hmem with hmem | hmem
    · obtain ⟨c, hc, hcallback⟩ := h.known k callback' hmem
      exact ⟨c, hold hc, hcallback⟩
    · cases List.mem_singleton.mp hmem
      exact ⟨_, hnew, rfl⟩
  · have hlt := h.events k e (hjs.mp hmem)
    change k < (t.calls ++ [_]).length
    rw [List.length_append]
    omega
  · obtain ⟨c, hc, hstage⟩ := h.ended k (over_of_called hover)
    exact ⟨c, hold hc, hstage⟩

/-- **A call.** The queue of its function is empty, for all calls are settled. -/
theorem callFunction_spec (h : Sound t) (hlooked : ThreadEvent.LookedLast t.log)
    (hready : Ready t.log) {callback : JsCallback} (hsize : callback.size ≤ maxIoChunkBytesV1) :
    wp (callFunction js callback) t
      (fun call t' => Sound t' ∧ t'.hung = t.hung ∧ ReadyBut t'.log call ∧ ¬Over t'.log call ∧
        ∃ log, Grown ThreadEvent.IsJs t.log log ∧ t'.log = log ++ [.called call callback])
      fun _ t' => Later ThreadEvent.Quiet t t' := by
  obtain ⟨hsound, hgrown, hhung⟩ := meanwhile_sound js h
  generalize hm : meanwhile js t = m at hsound hgrown hhung
  have hready : Ready m.log := hready.mono (hgrown.mono fun _ h => h.quiet.noCall)
  have hlt : ∀ {k callback'}, .called k callback' ∈ m.log → k < m.calls.length := by
    intro k callback' hmem
    obtain ⟨c, hc, -⟩ := hsound.known k callback' hmem
    exact (List.getElem?_eq_some_iff.mp hc).1
  have hrun : (callFunction js callback).run t =
      if m.aborted callback.function || m.queueFull callback.function then
        .error .ioError (m.note (.refused callback))
      else .ok m.calls.length ((m.enqueue callback).note (.called m.calls.length callback)) := by
    subst hm
    rfl
  rw [wp, hrun]
  split_ifs with hfull
  · have haborted : .js (.abort callback.function) ∈ m.log := by
      rw [Bool.or_eq_true, Threads.queueFull, List.any_eq_true] at hfull
      obtain habort | ⟨c, hmem, hqueued⟩ := hfull
      · exact (hsound.aborted _).mp habort
      simp only [Bool.and_eq_true, beq_iff_eq] at hqueued
      obtain ⟨k, hk⟩ := List.getElem?_of_mem hmem
      obtain hover | habort := hready k _ (hsound.calls k c hk).called
      · obtain ⟨c', hc', hstage⟩ := hsound.ended k hover
        obtain rfl := Option.some.inj (hk.symm.trans hc')
        exact absurd hqueued.1 hstage
      · rwa [← hqueued.2]
    subst hm
    exact later_note h haborted id trivial
  · refine ⟨sound_called hsound ⟨hsize, ?_, fun other callback' hmem => ⟨?_, ?_⟩⟩, hhung,
      fun other callback' hmem hne => ?_, fun hover => ?_, m.log, hgrown, rfl⟩
    · obtain ⟨before, hbefore⟩ := hlooked
      exact ⟨before, hbefore.trans hgrown⟩
    · exact (hlt hmem).ne
    · exact hready other callback' hmem
    · rcases List.mem_append.mp hmem with hmem | hmem
      · exact (hready other callback' hmem).mono (List.subset_append_left _ _)
      · cases List.mem_singleton.mp hmem
        exact absurd rfl hne
    · obtain ⟨c, hc, -⟩ := hsound.ended _ (over_of_called hover)
      exact absurd (List.getElem?_eq_some_iff.mp hc).1 (lt_irrefl _)

end steps

end KChat.Backup.Napi
