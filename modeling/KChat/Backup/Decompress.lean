import KChat.Backup.Compression

/-!
# What a push does

* `Fed d c out idle`: the decoder has been pushed `c` and has emitted `out`.
* `decodeLoop_running`, `decode_fed`, `pushHeader_fed`, **`push_fed`**: one push, whatever the
  caller's objects do. Nothing but a beginning of the content is emitted, and in a quiet environment
  a push fails only if what was pushed does not begin an acceptable frame.
-/

namespace KChat.Backup

open Lib BoundedDecoder

variable {σ δ : Type} {R : RawDecoder δ} {frame : Bytes → Option Bytes}

/-- `c` is an acceptable frame with content `p` that begins with `fed`. -/
structure Fits (frame : Bytes → Option Bytes) (fed c p : Bytes) : Prop where
  frame_eq : frame c = some p
  isPrefix : fed <+: c
  header : ∃ h, FrameHeader.parse c = some h ∧ GoodHeader h
  size : p.length ≤ maxPlaintextObjectBytesV1

/-- The decoder is inside the frame's data: it has consumed `fed` and emitted `out`. -/
structure Running (R : RawDecoder δ) (d : BoundedDecoder δ) (fed out : Bytes) (idle : ℕ) : Prop where
  reached : R.Reached windowLogMax d.decoder fed out idle
  complete : d.complete = false
  total : d.total = out.length
  limit : d.limit = maxPlaintextObjectBytesV1
  le : out.length ≤ maxPlaintextObjectBytesV1

/-- The frame is over: `out` is its content. -/
structure Finished (frame : Bytes → Option Bytes) (fed out : Bytes) : Prop where
  frame_eq : frame fed = some out
  le : out.length ≤ maxPlaintextObjectBytesV1
  isPrefix : ∀ c p, frame c = some p → fed <+: c → out <+: p

/-- The caller's sink is called with the chunk; in a quiet environment it does not fail. -/
def Emits (quiet : Prop) (emit : Bytes → Call σ Unit) : Prop :=
  ∀ chunk w, wp (emit chunk) w (fun _ w' => w'.bytes = w.bytes ++ chunk)
    fun _ w' => w'.bytes = w.bytes ++ chunk ∧ ¬ quiet

/-- The caller is asked whether it cancels; in a quiet environment it does not. -/
def Checks (quiet : Prop) (cancelled : Call σ Unit) : Prop :=
  ∀ w, wp cancelled w (fun _ w' => w'.bytes = w.bytes) fun _ w' => w'.bytes = w.bytes ∧ ¬ quiet

/-- How a push may fail: what was emitted begins the content of any frame that begins with `fed`,
and in a quiet environment no acceptable frame does. -/
def Refused (frame : Bytes → Option Bytes) (quiet : Prop) (start fed : Bytes) (w : World σ) : Prop :=
  ∃ out, w.bytes = start ++ out ∧ (∀ c p, frame c = some p → fed <+: c → out <+: p) ∧
    (quiet → ∀ c p, ¬ Fits frame fed c p)

def Decoded (R : RawDecoder δ) (frame : Bytes → Option Bytes) (quiet : Prop) (start fed : Bytes)
    (maxIdle : ℕ) (d : BoundedDecoder δ) (d' : BoundedDecoder δ) (w : World σ) : Prop :=
  ∃ out, w.bytes = start ++ out ∧ d'.headerChecked = d.headerChecked ∧
    ((∃ idle ≤ maxIdle, Running R d' fed out idle ∧ (quiet → frame fed = none)) ∨
      (d'.complete = true ∧ Finished frame fed out))

theorem reached_isPrefix (hsound : R.Sound frame windowLogMax) {d : δ} {fed out c p : Bytes}
    {idle : ℕ} (h : R.Reached windowLogMax d fed out idle) (hc : frame c = some p)
    (hp : fed <+: c) : out <+: p := by
  cases h with
  | start => exact List.nil_prefix
  | run h hcap hrun hrem => exact hsound.monotone h hcap hrun hc hp

section step

variable {quiet : Prop} {d : BoundedDecoder δ} {bytes fed out start : Bytes} {idle : ℕ}
  {capacity : ℕ} {status : RawStatus δ} {w : World σ}

theorem refused_of_running (hsound : R.Sound frame windowLogMax) (h : Running R d fed out idle)
    (hw : w.bytes = start ++ out) (hquiet : quiet → ∀ c p, ¬ Fits frame (fed ++ bytes) c p) :
    Refused frame quiet start (fed ++ bytes) w :=
  ⟨out, hw, fun _ _ hc hp => reached_isPrefix hsound h.reached hc
    ((List.prefix_append _ _).trans hp), hquiet⟩

theorem take_isPrefix (fed bytes : Bytes) (n : ℕ) : fed ++ bytes.take n <+: fed ++ bytes :=
  List.prefix_append_right_inj fed |>.mpr (List.take_prefix _ _)

/-- What one call of the raw decoder writes begins the content of any frame its input begins. -/
theorem written_isPrefix (hsound : R.Sound frame windowLogMax) (h : Running R d fed out idle)
    (hcap : 0 < capacity) (hrun : R.runOnBuffers d.decoder bytes capacity = some status) {c p : Bytes}
    (hc : frame c = some p) (hp : fed ++ bytes <+: c) : out ++ status.written <+: p :=
  hsound.monotone h.reached hcap hrun hc ((take_isPrefix _ _ _).trans hp)

theorem refused_of_run (hsound : R.Sound frame windowLogMax) (h : Running R d fed out idle)
    (hcap : 0 < capacity) (hrun : R.runOnBuffers d.decoder bytes capacity = some status)
    (hw : w.bytes = start ++ (out ++ status.written))
    (hquiet : quiet → ∀ c p, ¬ Fits frame (fed ++ bytes) c p) :
    Refused frame quiet start (fed ++ bytes) w :=
  ⟨_, hw, fun _ _ hc hp => written_isPrefix hsound h hcap hrun hc hp, hquiet⟩

end step

section decode

variable {quiet : Prop} {emit : Bytes → Call σ Unit} {cancelled : Call σ Unit}
  (hsound : R.Sound frame windowLogMax) (hdelim : quiet → SelfDelimiting frame)
  (hlive : quiet → R.Live frame windowLogMax) (hemit : Emits quiet emit)
  (hcancel : Checks quiet cancelled)

include hsound hdelim hlive hcancel in
/-- The rest of one round of the decode loop: `next` stands for the rounds that follow. -/
theorem wp_afterRun {d : BoundedDecoder δ} {bytes fed out start : Bytes} {idle capacity maxIdle : ℕ}
    {status : RawStatus δ} {next : Call σ (BoundedDecoder δ)} (h : Running R d fed out idle)
    (hcap : 0 < capacity) (hrun : R.runOnBuffers d.decoder bytes capacity = some status)
    (hmax : 1 ≤ maxIdle ∧ (bytes = [] → idle + 1 ≤ maxIdle))
    (hle : d.total + status.written.length ≤ d.limit)
    (hnext : ∀ w : World σ, w.bytes = start ++ (out ++ status.written) → status.remaining ≠ 0 →
      ¬ (status.bytesRead = 0 ∧ status.written = []) → wp next w
        (Decoded R frame quiet start (fed ++ bytes) maxIdle d)
        fun _ => Refused frame quiet start (fed ++ bytes))
    (w : World σ) (hw : w.bytes = start ++ (out ++ status.written)) :
    wp (do
        cancelled
        if status.remaining = 0 then
          if bytes.drop status.bytesRead = [] then
            return { d with
              decoder := status.decoder, total := d.total + status.written.length, complete := true }
          else throw .invalidCompressedData
        else if status.bytesRead = 0 ∧ status.written = [] then
          if bytes.drop status.bytesRead = [] then
            return { d with decoder := status.decoder, total := d.total + status.written.length }
          else throw .invalidCompressedData
        else next) w (Decoded R frame quiet start (fed ++ bytes) maxIdle d)
      fun _ => Refused frame quiet start (fed ++ bytes) := by
  have hlen : (out ++ status.written).length ≤ maxPlaintextObjectBytesV1 := by
    rw [List.length_append, ← h.total, ← h.limit]
    exact hle
  rw [wp_bind]
  refine wp_mono (hcancel w) (fun _ w₁ hw₁ => ?_) fun _ w₁ hw₁ => ?_
  swap
  · exact refused_of_run hsound h hcap hrun (hw₁.1.trans hw) fun hq => absurd hq hw₁.2
  rw [hw] at hw₁
  refine wp_ite (fun hrem => ?_) fun hrem => ?_
  · have hcomplete := hsound.complete h.reached hcap hrun hrem
    refine wp_ite (fun hrest => ?_) fun hrest => ?_
    · rw [wp_pure]
      rw [List.take_of_length_le (List.drop_eq_nil_iff.mp hrest)] at hcomplete
      exact ⟨_, hw₁, rfl, .inr ⟨rfl, hcomplete, hlen, fun _ _ hc hp =>
        written_isPrefix hsound h hcap hrun hc hp⟩⟩
    · -- the frame is over, and bytes are left
      refine refused_of_run hsound h hcap hrun hw₁ fun hq c p hfits => hrest ?_
      have hpre := (take_isPrefix fed bytes status.bytesRead).trans hfits.isPrefix
      have heq := hdelim hq hfits.frame_eq hcomplete hpre
      have hback : fed ++ bytes <+: fed ++ bytes.take status.bytesRead := by
        rw [heq]
        exact hfits.isPrefix
      have := ((List.prefix_append_right_inj fed).mp hback).length_le
      rw [List.length_take] at this
      exact List.drop_eq_nil_iff.mpr (by omega)
  · refine wp_ite (fun hidle => ?_) fun hidle => hnext w₁ hw₁ hrem hidle
    have hreach := RawDecoder.Reached.run h.reached hcap hrun hrem
    rw [if_pos hidle, hidle.1, hidle.2, List.take_zero, List.append_nil, List.append_nil] at hreach
    have hprogress : ∀ c p, quiet → frame c = some p → fed ++ bytes <+: c →
        ¬ (bytes ≠ [] ∨ fed = c) := by
      intro c p hq hc hp hor
      rcases (hlive hq).progress h.reached hcap hc hp hrun hrem hor with h0 | h0
      · exact h0 hidle.1
      · exact h0 hidle.2
    rw [hidle.1, List.drop_zero]
    refine wp_ite (fun hrest => ?_) fun hrest => ?_
    · rw [wp_pure]
      subst hrest
      rw [hidle.2, List.append_nil] at hw₁ hlen
      rw [hidle.2, List.length_nil, Nat.add_zero, List.append_nil]
      refine ⟨out, hw₁, rfl, .inl ⟨idle + 1, hmax.2 rfl,
        ⟨hreach, h.complete, h.total, h.limit, hlen⟩, fun hq => ?_⟩⟩
      by_contra hsome
      obtain ⟨p, hp⟩ := Option.ne_none_iff_exists'.mp hsome
      exact hprogress fed p hq hp (by simp) (.inr rfl)
    · exact refused_of_run hsound h hcap hrun hw₁ fun hq c p hfits =>
        hprogress c p hq hfits.frame_eq hfits.isPrefix (.inl hrest)

include hsound hdelim hlive hemit hcancel in
theorem decodeLoop_running (d : BoundedDecoder δ) (bytes fed out start : Bytes) (idle maxIdle : ℕ)
    (w : World σ) (h : Running R d fed out idle) (hidle : idle + 1 < maxIdleCalls)
    (hmax : 1 ≤ maxIdle ∧ (bytes = [] → idle + 1 ≤ maxIdle)) (hw : w.bytes = start ++ out) :
    wp (decodeLoop R emit cancelled d bytes) w (Decoded R frame quiet start (fed ++ bytes) maxIdle d)
      fun _ => Refused frame quiet start (fed ++ bytes) := by
  induction d, bytes using decodeLoop.induct R generalizing fed out idle w with
  | case1 d bytes ih =>
    have hcap : 0 < min maxIoChunkBytesV1 (d.limit - d.total + 1) := by
      simp only [maxIoChunkBytesV1]
      omega
    rw [decodeLoop, wp_bind]
    refine wp_mono (hcancel w) (fun _ w₁ hw₁ => ?_) fun e w₁ hw₁ => ?_
    swap
    · exact refused_of_running hsound h (hw₁.1.trans hw) fun hq => absurd hq hw₁.2
    rw [hw] at hw₁
    dsimp only
    split
    · rename_i hrun
      refine refused_of_running hsound h hw₁ fun hq c p hfits => ?_
      obtain ⟨fh, hfh, hgood⟩ := hfits.header
      have := (hlive hq).accepts h.reached hidle hcap hfits.frame_eq hfh hgood.dictionaryIdFlag
        hgood.reservedBit hgood.windowSize hfits.isPrefix
      rw [hrun] at this
      cases this
    rename_i status hrun
    split
    swap
    · rename_i htotal
      -- more content than the limit allows
      refine refused_of_running hsound h hw₁ fun hq c p hfits => htotal ?_
      have hle := (written_isPrefix hsound h hcap hrun hfits.frame_eq hfits.isPrefix).length_le
      have hsize := hfits.size
      rw [List.length_append, ← h.total] at hle
      have hlimit := h.limit
      simp only [maxPlaintextObjectBytesV1] at hsize hlimit
      omega
    rename_i htotal
    rw [wp_bind]
    refine wp_mono (hcancel w₁) (fun _ w₂ hw₂ => ?_) fun e w₂ hw₂ => ?_
    swap
    · exact refused_of_running hsound h (hw₂.1.trans hw₁) fun hq => absurd hq hw₂.2
    rw [hw₁] at hw₂
    have hnext : ∀ w' : World σ, w'.bytes = start ++ (out ++ status.written) →
        status.remaining ≠ 0 → ¬ (status.bytesRead = 0 ∧ status.written = []) →
        wp (decodeLoop R emit cancelled { d with
            decoder := status.decoder, total := d.total + status.written.length }
            (bytes.drop status.bytesRead)) w' (Decoded R frame quiet start (fed ++ bytes) maxIdle d)
          fun _ => Refused frame quiet start (fed ++ bytes) := by
      intro w' hw' hrem hprogress
      have hreach := RawDecoder.Reached.run h.reached hcap hrun hrem
      rw [if_neg hprogress] at hreach
      have hrunning : Running R { d with
          decoder := status.decoder, total := d.total + status.written.length }
          (fed ++ bytes.take status.bytesRead) (out ++ status.written) 0 :=
        ⟨hreach, h.complete, by rw [List.length_append, h.total], h.limit, by
          rw [List.length_append, ← h.total, ← h.limit]
          exact htotal.2⟩
      have := ih status hrun htotal hprogress _ _ 0 w' hrunning (by decide) ⟨hmax.1, fun _ => hmax.1⟩ hw'
      rwa [List.append_assoc, List.take_append_drop] at this
    split
    · rw [wp_bind]
      refine wp_mono (hemit _ w₂) (fun _ w₃ hw₃ => ?_) fun e w₃ hw₃ => ?_
      · rw [hw₂, List.append_assoc] at hw₃
        exact wp_afterRun hsound hdelim hlive hcancel h hcap hrun hmax htotal.2 hnext w₃ hw₃
      · rw [hw₂, List.append_assoc] at hw₃
        exact refused_of_run hsound h hcap hrun hw₃.1 fun hq => absurd hq hw₃.2
    · rename_i hne
      refine wp_afterRun hsound hdelim hlive hcancel h hcap hrun hmax htotal.2 hnext w₂ ?_
      rw [hw₂, not_not.mp hne, List.append_nil]

/-- **The decoder has been pushed `c` and has emitted `out`.** -/
inductive Fed (R : RawDecoder δ) (frame : Bytes → Option Bytes) (quiet : Prop) (d : BoundedDecoder δ)
    (c out : Bytes) (idle : ℕ) : Prop
  | header : d.headerChecked = false → d.header = c → checkHeader c = .ok false → out = [] →
      Running R d [] [] 0 → Fed R frame quiet d c out idle
  | body : d.headerChecked = true → (∃ fh, FrameHeader.parse c = some fh ∧ GoodHeader fh) →
      Running R d c out idle → (quiet → frame c = none) → Fed R frame quiet d c out idle
  | done : d.headerChecked = true → (∃ fh, FrameHeader.parse c = some fh ∧ GoodHeader fh) →
      d.complete = true → Finished frame c out → Fed R frame quiet d c out idle

theorem fresh_fed {d d' : δ} (hd : R.new = some d) (hd' : R.setWindowLogMax d windowLogMax = some d') :
    Fed R frame quiet (fresh d') [] [] 0 :=
  .header rfl rfl rfl rfl ⟨.start hd hd', rfl, rfl, rfl, Nat.zero_le _⟩

theorem new_fed (frame : Bytes → Option Bytes) (quiet : Prop) (w : World σ) : wp (BoundedDecoder.new R) w
    (fun d w' => w' = w ∧ Fed R frame quiet d [] [] 0) fun _ w' => w' = w := by
  rw [BoundedDecoder.new, wp_bind]
  refine wp_orThrow (fun d hd => ?_) fun _ => rfl
  rw [wp_bind]
  exact wp_orThrow (fun d' hd' => ⟨rfl, fresh_fed hd hd'⟩) fun _ => rfl

theorem Fed.isPrefix {d : BoundedDecoder δ} {fed out c p : Bytes} {idle : ℕ}
    (h : Fed R frame quiet d fed out idle) (hsound : R.Sound frame windowLogMax)
    (hc : frame c = some p) (hp : fed <+: c) : out <+: p := by
  cases h with
  | header _ _ _ hout => rw [hout]; exact List.nil_prefix
  | body _ _ hrun => exact reached_isPrefix hsound hrun.reached hc hp
  | done _ _ _ hfin => exact hfin.isPrefix c p hc hp

theorem Fed.of_finish {d : BoundedDecoder δ} {c out : Bytes} {idle : ℕ}
    (h : Fed R frame quiet d c out idle) (hok : d.finish = .ok ()) :
    (∃ fh, FrameHeader.parse c = some fh ∧ GoodHeader fh) ∧ Finished frame c out := by
  rw [BoundedDecoder.finish] at hok
  split_ifs at hok with hdone
  cases h with
  | header hunchecked => rw [hunchecked] at hdone; cases hdone.1
  | body _ _ hrun => rw [hrun.complete] at hdone; cases hdone.2
  | done _ hheader _ hfin => exact ⟨hheader, hfin⟩

theorem Fed.finish_of_fits {d : BoundedDecoder δ} {c out p : Bytes} {idle : ℕ}
    (h : Fed R frame quiet d c out idle) (hquiet : quiet) (hfits : Fits frame c c p) :
    d.finish = .ok () := by
  cases h with
  | header _ _ hcheck =>
    obtain ⟨fh, hfh, hgood⟩ := hfits.header
    rw [checkHeader_of_isPrefix hfh hgood hfits.isPrefix, hfh] at hcheck
    cases hcheck
  | body _ _ _ hnone =>
    have := hnone hquiet
    rw [hfits.frame_eq] at this
    cases this
  | done hchecked _ hcomplete _ => exact if_pos ⟨hchecked, hcomplete⟩

theorem Refused.append {start fed : Bytes} {w : World σ} (h : Refused frame quiet start fed w)
    (more : Bytes) : Refused frame quiet start (fed ++ more) w := by
  obtain ⟨out, hw, hpre, hquiet⟩ := h
  have hle : ∀ {c}, fed ++ more <+: c → fed <+: c := (List.prefix_append fed more).trans
  exact ⟨out, hw, fun c p hc hp => hpre c p hc (hle hp), fun hq c p hfits =>
    hquiet hq c p { hfits with isPrefix := hle hfits.isPrefix }⟩

def Pushed (R : RawDecoder δ) (frame : Bytes → Option Bytes) (quiet : Prop) (start c : Bytes)
    (maxIdle : ℕ) (d : BoundedDecoder δ) (w : World σ) : Prop :=
  ∃ out, w.bytes = start ++ out ∧ ∃ idle ≤ maxIdle, Fed R frame quiet d c out idle

theorem Pushed.mono {start c : Bytes} {maxIdle maxIdle' : ℕ} {d : BoundedDecoder δ} {w : World σ}
    (h : Pushed R frame quiet start c maxIdle d w) (hle : maxIdle ≤ maxIdle') :
    Pushed R frame quiet start c maxIdle' d w := by
  obtain ⟨out, hw, idle, hidle, hfed⟩ := h
  exact ⟨out, hw, idle, hidle.trans hle, hfed⟩

include hsound hdelim hlive hemit hcancel

theorem decode_running (maxIdle : ℕ) {d : BoundedDecoder δ} {c out start bytes : Bytes} {idle : ℕ}
    {w : World σ} (hchecked : d.headerChecked = true) (h : Running R d c out idle)
    (hheader : ∃ fh, FrameHeader.parse (c ++ bytes) = some fh ∧ GoodHeader fh)
    (hidle : idle + 1 < maxIdleCalls) (hmax : 1 ≤ maxIdle ∧ (bytes = [] → idle + 1 ≤ maxIdle))
    (hw : w.bytes = start ++ out) : wp (decode R emit cancelled d bytes) w
      (fun d' w' => Pushed R frame quiet start (c ++ bytes) maxIdle d' w' ∧
        d'.headerChecked = true)
      fun _ => Refused frame quiet start (c ++ bytes) := by
  rw [decode, h.complete, if_neg (by simp)]
  refine wp_mono (decodeLoop_running hsound hdelim hlive hemit hcancel d bytes c out start idle
    maxIdle w h hidle hmax hw) (fun d' w' hd' => ?_) fun _ _ h => h
  obtain ⟨out', hw', hchecked', hrun | hdone⟩ := hd'
  · obtain ⟨idle', hle, hrun, hnone⟩ := hrun
    exact ⟨⟨out', hw', idle', hle, .body (hchecked'.trans hchecked) hheader hrun hnone⟩,
      hchecked'.trans hchecked⟩
  · exact ⟨⟨out', hw', 0, Nat.zero_le _, .done (hchecked'.trans hchecked) hheader hdone.1 hdone.2⟩,
      hchecked'.trans hchecked⟩

theorem decode_fed (maxIdle : ℕ) {d : BoundedDecoder δ} {c out start bytes : Bytes} {idle : ℕ}
    {w : World σ} (hchecked : d.headerChecked = true) (h : Fed R frame quiet d c out idle)
    (hidle : idle + 1 < maxIdleCalls) (hmax : 1 ≤ maxIdle ∧ (bytes = [] → idle + 1 ≤ maxIdle))
    (hw : w.bytes = start ++ out) : wp (decode R emit cancelled d bytes) w
      (Pushed R frame quiet start (c ++ bytes) maxIdle)
      fun _ => Refused frame quiet start (c ++ bytes) := by
  cases h with
  | header hunchecked => rw [hchecked] at hunchecked; cases hunchecked
  | body _ hheader hrun _ =>
    obtain ⟨fh, hfh, hgood⟩ := hheader
    exact wp_mono (decode_running hsound hdelim hlive hemit hcancel maxIdle hchecked hrun
      ⟨fh, FrameHeader.parse_append hfh bytes, hgood⟩ hidle hmax hw) (fun _ _ h => h.1)
      fun _ _ h => h
  | done _ hheader hcomplete hfin =>
    rw [decode, hcomplete, if_pos rfl]
    refine wp_ite (fun hnil => ?_) fun hne => ?_
    · rw [hnil, List.append_nil]
      exact ⟨out, hw, 0, Nat.zero_le _, .done hchecked hheader hcomplete hfin⟩
    · -- the frame is over, and bytes are left
      refine ⟨out, hw, fun c' p hc hp => hfin.isPrefix c' p hc ((List.prefix_append _ _).trans hp),
        fun hq c' p hfits => hne ?_⟩
      have heq := hdelim hq hfits.frame_eq hfin.frame_eq
        ((List.prefix_append _ _).trans hfits.isPrefix)
      have hlen := hfits.isPrefix.length_le
      rw [← heq, List.length_append] at hlen
      exact List.eq_nil_of_length_eq_zero (by omega)

/-- The header loop: it stops with a checked header or at the end of the bytes. -/
theorem pushHeader_fed {d : BoundedDecoder δ} {c out start bytes : Bytes} {idle : ℕ} {w : World σ}
    (h : Fed R frame quiet d c out idle) (hw : w.bytes = start ++ out) :
    wp (pushHeader R emit cancelled d bytes) w
      (fun r w' => ∃ done, bytes = done ++ r.2 ∧ (r.1.headerChecked = true ∨ r.2 = []) ∧
        Pushed R frame quiet start (c ++ done) (if done = [] then idle else 1) r.1 w')
      fun _ => Refused frame quiet start (c ++ bytes) := by
  induction bytes generalizing d c idle with
  | nil => exact ⟨[], rfl, .inr rfl, out, hw, idle, le_rfl, by rwa [List.append_nil]⟩
  | cons b bytes ih =>
    rw [pushHeader]
    refine wp_ite (fun hchecked => ?_) fun hunchecked => ?_
    · exact ⟨[], rfl, .inl hchecked, out, hw, idle, le_rfl, by rwa [List.append_nil]⟩
    cases h with
    | body hchecked => exact absurd hchecked hunchecked
    | done hchecked => exact absurd hchecked hunchecked
    | header _ hheader hcheck hout hrun =>
      subst hout
      rw [List.append_nil] at hw
      rw [hheader]
      have hbytes : c ++ b :: bytes = c ++ [b] ++ bytes := by simp
      rw [hbytes, wp_bind]
      refine wp_ofResult (fun complete hok => ?_) fun e he => ?_
      · refine wp_ite (fun hcomplete => ?_) fun hincomplete => ?_
        · obtain rfl := hcomplete
          obtain ⟨fh, hfh, hgood⟩ := checkHeader_eq_ok_true hok
          rw [wp_bind]
          refine wp_mono (decode_running hsound hdelim hlive hemit hcancel 1 rfl
            ⟨hrun.reached, hrun.complete, hrun.total, hrun.limit, hrun.le⟩
            ⟨fh, by rwa [List.nil_append], hgood⟩ (by decide) ⟨le_rfl, fun _ => le_rfl⟩
            (by rwa [List.append_nil])) (fun d' w' hd' => ?_)
            fun _ _ h => h.append bytes
          obtain ⟨hpushed, hchecked'⟩ := hd'
          rw [List.nil_append] at hpushed
          have hstop : pushHeader R emit cancelled d' bytes = pure (d', bytes) := by
            cases bytes with
            | nil => rfl
            | cons b' bytes => rw [pushHeader, if_pos hchecked']
          rw [hstop, wp_pure]
          exact ⟨[b], rfl, .inl hchecked', by simpa using hpushed⟩
        · obtain rfl := (Bool.not_eq_true _).mp hincomplete
          have hfed : Fed R frame quiet { d with header := c ++ [b] } (c ++ [b]) [] 0 :=
            .header ((Bool.not_eq_true _).mp hunchecked) rfl hok rfl
              ⟨hrun.reached, hrun.complete, hrun.total, hrun.limit, hrun.le⟩
          refine wp_mono (ih hfed) (fun r w' hr => ?_) fun _ _ h => h
          obtain ⟨done, hdone, hstop, out', hw', idle', hle, hfed'⟩ := hr
          refine ⟨b :: done, by rw [hdone, List.cons_append], hstop, out', hw', idle', ?_, ?_⟩
          · rw [if_neg (by simp)]
            refine hle.trans ?_
            split_ifs <;> omega
          · simpa using hfed'
      · refine ⟨[], by rwa [List.append_nil], fun _ _ _ _ => List.nil_prefix, fun _ c' p hfits => ?_⟩
        obtain ⟨fh, hfh, hgood⟩ := hfits.header
        rw [checkHeader_of_isPrefix hfh hgood ((List.prefix_append _ _).trans hfits.isPrefix)] at he
        cases he

/-- **One push**, whatever the caller's objects do. -/
theorem push_fed {d : BoundedDecoder δ} {c out start bytes : Bytes} {w : World σ}
    (h : ∃ idle ≤ 2, Fed R frame quiet d c out idle) (hw : w.bytes = start ++ out) :
    wp (push R emit cancelled d bytes) w
      (Pushed R frame quiet start (c ++ bytes) (if bytes = [] then 3 else 2))
      fun _ => Refused frame quiet start (c ++ bytes) := by
  obtain ⟨idle, hidle, hfed⟩ := h
  rw [push, wp_bind]
  refine wp_mono (pushHeader_fed hsound hdelim hlive hemit hcancel hfed hw) (fun r w' hr => ?_)
    fun _ _ h => h
  obtain ⟨done, rfl, hstop, out', hw', idle', hle, hfed'⟩ := hr
  have hsmall : idle' + 1 < maxIdleCalls := by
    simp only [maxIdleCalls]
    split_ifs at hle <;> omega
  refine wp_ite (fun hchecked => ?_) fun hunchecked => ?_
  · rw [← List.append_assoc]
    refine decode_fed hsound hdelim hlive hemit hcancel _ hchecked hfed' hsmall ⟨?_, fun hnil => ?_⟩
      hw'
    · split_ifs <;> omega
    · rw [hnil, List.append_nil]
      split_ifs at hle ⊢ <;> omega
  · obtain hnil := hstop.resolve_left hunchecked
    rw [hnil, List.append_nil]
    refine ⟨out', hw', idle', ?_, hfed'⟩
    split_ifs at hle ⊢ <;> omega

end decode

end KChat.Backup
