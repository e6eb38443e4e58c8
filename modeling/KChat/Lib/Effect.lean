import Mathlib.Order.Basic

/-!
# Stateful computations that may fail: postconditions and simulation

Computations of `EStateM`, whose state survives an error.

* `run_bind_ok`, `run_bind_error`, `bind_eq_ok`: a run, one step at a time.
* `wp x s Q E`: run from `s`, `x` ends in `Q` with a result or in `E` with an error; `wp_bind` and
  its companions push it through a computation, `wp_mono` weakens it; `run_bind_congr`.
* `Preserves J F x`: from `J`, `x` ends in `J`, or in `F` with an error; **`Preserves.bind`**.
* `zoom`: a computation on a part of the state; `Owning`, `onWorld`, `withSelf`: an object that is
  owned beside the world it acts on.
* `Sim Rel RelE x y`: from related states `x` and `y` give the same result or the same error and
  end in related states; **`Sim.bind`**.
* `Tracks Rel x y`: from related states `y` does what `x` does where `x` succeeds;
  **`Tracks.bind`**.
-/

namespace Lib

variable {ε σ τ α β : Type}

/-! ## One step at a time -/

theorem run_bind_ok {x : EStateM ε σ α} {f : α → EStateM ε σ β} {s s' : σ} {a : α}
    (h : x.run s = .ok a s') : (x >>= f).run s = (f a).run s' := by
  change EStateM.bind x f s = f a s'
  rw [EStateM.bind, show x s = _ from h]

theorem run_bind_error {x : EStateM ε σ α} {f : α → EStateM ε σ β} {s s' : σ} {e : ε}
    (h : x.run s = .error e s') : (x >>= f).run s = .error e s' := by
  change EStateM.bind x f s = _
  rw [EStateM.bind, show x s = _ from h]

/-- The first step of a computation that gives a result. -/
theorem bind_eq_ok {x : EStateM ε σ α} {f : α → EStateM ε σ β} {s s' : σ} {b : β}
    (h : (x >>= f).run s = .ok b s') : ∃ a s₁, x.run s = .ok a s₁ ∧ (f a).run s₁ = .ok b s' := by
  cases hx : x.run s with
  | ok a s₁ => exact ⟨a, s₁, rfl, by rwa [run_bind_ok hx] at h⟩
  | error e s₁ =>
    rw [run_bind_error hx] at h
    cases h

/-! ## Postconditions -/

/-- Run from `s`, `x` ends in `Q` with a result or in `E` with an error. -/
def wp (x : EStateM ε σ α) (s : σ) (Q : α → σ → Prop) (E : ε → σ → Prop) : Prop :=
  match x.run s with
  | .ok a s' => Q a s'
  | .error e s' => E e s'

section wp

variable {x : EStateM ε σ α} {s s' : σ} {Q Q' : α → σ → Prop} {E E' : ε → σ → Prop}

theorem wp_of_ok {a : α} (hx : x.run s = .ok a s') : wp x s Q E ↔ Q a s' := by
  rw [wp, hx]

theorem wp_of_error {e : ε} (hx : x.run s = .error e s') : wp x s Q E ↔ E e s' := by
  rw [wp, hx]

theorem wp_mono (h : wp x s Q E) (hQ : ∀ a s', Q a s' → Q' a s')
    (hE : ∀ e s', E e s' → E' e s') : wp x s Q' E' := by
  cases hx : x.run s with
  | ok a s' => exact (wp_of_ok hx).mpr (hQ _ _ ((wp_of_ok hx).mp h))
  | error e s' => exact (wp_of_error hx).mpr (hE _ _ ((wp_of_error hx).mp h))

theorem wp_and (h : wp x s Q E) (h' : wp x s Q' E') :
    wp x s (fun a s' => Q a s' ∧ Q' a s') fun e s' => E e s' ∧ E' e s' := by
  cases hx : x.run s with
  | ok a s' => exact (wp_of_ok hx).mpr ⟨(wp_of_ok hx).mp h, (wp_of_ok hx).mp h'⟩
  | error e s' => exact (wp_of_error hx).mpr ⟨(wp_of_error hx).mp h, (wp_of_error hx).mp h'⟩

/-- A computation whose results are excluded fails. -/
theorem exists_error_of_wp (h : wp x s (fun _ _ => False) E) :
    ∃ e s', x.run s = .error e s' ∧ E e s' := by
  cases hx : x.run s with
  | ok a s' => exact ((wp_of_ok hx).mp h).elim
  | error e s' => exact ⟨e, s', rfl, (wp_of_error hx).mp h⟩

/-- A computation whose errors are excluded gives a result. -/
theorem exists_run_of_wp (h : wp x s Q fun _ _ => False) :
    ∃ a s', x.run s = .ok a s' ∧ Q a s' := by
  cases hx : x.run s with
  | ok a s' => exact ⟨a, s', rfl, (wp_of_ok hx).mp h⟩
  | error e s' => exact ((wp_of_error hx).mp h).elim

@[simp] theorem wp_pure (a : α) : wp (pure a : EStateM ε σ α) s Q E ↔ Q a s := Iff.rfl

@[simp] theorem wp_throw (e : ε) : wp (throw e : EStateM ε σ α) s Q E ↔ E e s := Iff.rfl

@[simp] theorem wp_bind (f : α → EStateM ε σ β) {Q : β → σ → Prop} :
    wp (x >>= f) s Q E ↔ wp x s (fun a s' => wp (f a) s' Q E) E := by
  cases hx : x.run s with
  | ok a s' => rw [wp, run_bind_ok hx, wp_of_ok hx, wp]
  | error e s' => rw [wp, run_bind_error hx, wp_of_error hx]

theorem wp_true (x : EStateM ε σ α) (s : σ) : wp x s (fun _ _ => True) fun _ _ => True := by
  unfold wp
  split <;> trivial

/-- Two computations that begin alike run alike if they do from where the beginning ends. -/
theorem run_bind_congr {f g : α → EStateM ε σ β}
    (h : wp x s (fun a s' => (f a).run s' = (g a).run s') fun _ _ => True) :
    (x >>= f).run s = (x >>= g).run s := by
  cases hx : x.run s with
  | ok a s' => rw [run_bind_ok hx, run_bind_ok hx, (wp_of_ok hx).mp h]
  | error e s' => rw [run_bind_error hx, run_bind_error hx]

theorem run_ite_congr {p : Prop} [Decidable p] {y y' z z' : EStateM ε σ α}
    (h : p → y.run s = y'.run s) (h' : ¬ p → z.run s = z'.run s) :
    (if p then y else z).run s = (if p then y' else z').run s := by
  split_ifs with hp
  · exact h hp
  · exact h' hp

@[simp] theorem wp_get {Q : σ → σ → Prop} : wp (get : EStateM ε σ σ) s Q E ↔ Q s s := Iff.rfl

@[simp] theorem wp_set {Q : PUnit → σ → Prop} :
    wp (set s' : EStateM ε σ PUnit) s Q E ↔ Q ⟨⟩ s' := Iff.rfl

@[simp] theorem wp_modify (f : σ → σ) {Q : PUnit → σ → Prop} :
    wp (modify f : EStateM ε σ PUnit) s Q E ↔ Q ⟨⟩ (f s) := Iff.rfl

/-- The error of `x` under another name. -/
def mapError {ε' : Type} (f : ε → ε') (x : EStateM ε σ α) : EStateM ε' σ α := fun s =>
  match x.run s with
  | .ok a s' => .ok a s'
  | .error e s' => .error (f e) s'

theorem run_mapError_ok {ε' : Type} (f : ε → ε') {a : α} (h : x.run s = .ok a s') :
    (mapError f x).run s = .ok a s' := by
  change mapError f x s = _
  rw [mapError, h]

theorem run_mapError_error {ε' : Type} (f : ε → ε') {e : ε} (h : x.run s = .error e s') :
    (mapError f x).run s = .error (f e) s' := by
  change mapError f x s = _
  rw [mapError, h]

@[simp] theorem wp_mapError {ε' : Type} (f : ε → ε') {E : ε' → σ → Prop} :
    wp (mapError f x) s Q E ↔ wp x s Q fun e s' => E (f e) s' := by
  cases hx : x.run s with
  | ok a s' => rw [wp_of_ok hx, wp_of_ok (run_mapError_ok f hx)]
  | error e s' => rw [wp_of_error hx, wp_of_error (run_mapError_error f hx)]

/-- The error as a result. -/
def attempt (x : EStateM ε σ α) : EStateM ε σ (Except ε α) := fun s =>
  match x.run s with
  | .ok a s' => .ok (.ok a) s'
  | .error e s' => .ok (.error e) s'

@[simp] theorem wp_attempt {Q : Except ε α → σ → Prop} : wp (attempt x) s Q E ↔
    wp x s (fun a => Q (.ok a)) fun e => Q (.error e) := by
  have hrun : (attempt x).run s = match x.run s with
    | .ok a s' => .ok (.ok a) s'
    | .error e s' => .ok (.error e) s' := rfl
  cases hx : x.run s with
  | ok a s' =>
    rw [hx] at hrun
    rw [wp_of_ok hx, wp_of_ok hrun]
  | error e s' =>
    rw [hx] at hrun
    rw [wp_of_error hx, wp_of_ok hrun]

/-- The value, or the error `e` where there is none. -/
def orThrow (o : Option α) (e : ε) : EStateM ε σ α :=
  match o with
  | some a => pure a
  | none => throw e

/-- The outcome of a computation without a state. -/
def ofResult (r : Except ε α) : EStateM ε σ α :=
  match r with
  | .ok a => pure a
  | .error e => throw e

theorem wp_orThrow {o : Option α} {e : ε} (h : ∀ a, o = some a → Q a s) (h' : o = none → E e s) :
    wp (orThrow o e) s Q E := by
  cases o with
  | some a => exact h a rfl
  | none => exact h' rfl

theorem mapError_eq_ok {ε' : Type} {f : ε → ε'} {r : Except ε α} {a : α} :
    r.mapError f = .ok a ↔ r = .ok a := by
  cases r with
  | ok b => simp [Except.mapError]
  | error e => simp [Except.mapError]

section mapM

variable {f : α → Except ε β} {l : List α} {l' : List β}

theorem mapM_cons_eq_ok {a : α} (h : (a :: l).mapM f = .ok l') :
    ∃ b bs, f a = .ok b ∧ l.mapM f = .ok bs ∧ l' = b :: bs := by
  rw [List.mapM_cons] at h
  cases hb : f a with
  | error e =>
    rw [hb] at h
    cases h
  | ok b =>
    rw [hb] at h
    cases hbs : l.mapM f with
    | error e =>
      rw [hbs] at h
      cases h
    | ok bs =>
      rw [hbs] at h
      exact ⟨b, bs, rfl, rfl, (Except.ok.inj h).symm⟩

theorem ok_of_mapM (h : l.mapM f = .ok l') {a : α} (ha : a ∈ l) : ∃ b, f a = .ok b := by
  induction l generalizing l' with
  | nil => cases ha
  | cons a' l ih =>
    obtain ⟨b, bs, hb, hbs, -⟩ := mapM_cons_eq_ok h
    rcases List.mem_cons.mp ha with rfl | ha
    · exact ⟨b, hb⟩
    · exact ih hbs ha

theorem mapM_append_eq_ok {m : List α} {m' : List β} (h : l.mapM f = .ok l')
    (hm : m.mapM f = .ok m') : (l ++ m).mapM f = .ok (l' ++ m') := by
  rw [List.mapM_append, h, hm]
  rfl

/-- What a list of outcomes is made of. -/
theorem mem_of_mapM (h : l.mapM f = .ok l') {b : β} : b ∈ l' ↔ ∃ a ∈ l, f a = .ok b := by
  induction l generalizing l' with
  | nil =>
    cases h
    simp
  | cons a l ih =>
    obtain ⟨b', bs, hb, hbs, rfl⟩ := mapM_cons_eq_ok h
    simp only [List.mem_cons, ih hbs, exists_eq_or_imp, hb, Except.ok.injEq]
    exact or_congr eq_comm Iff.rfl

theorem map_of_mapM {γ : Type} {g : β → γ} {k : α → γ} (h : l.mapM f = .ok l')
    (hg : ∀ a ∈ l, ∀ b, f a = .ok b → g b = k a) : l'.map g = l.map k := by
  induction l generalizing l' with
  | nil =>
    cases h
    rfl
  | cons a l ih =>
    obtain ⟨b, bs, hb, hbs, rfl⟩ := mapM_cons_eq_ok h
    rw [List.map_cons, List.map_cons, hg a List.mem_cons_self b hb,
      ih hbs fun a ha => hg a (List.mem_cons_of_mem _ ha)]

end mapM

theorem wp_ofResult {r : Except ε α} (h : ∀ a, r = .ok a → Q a s) (h' : ∀ e, r = .error e → E e s) :
    wp (ofResult r) s Q E := by
  cases r with
  | ok a => exact h a rfl
  | error e => exact h' e rfl

theorem wp_ite {p : Prop} [Decidable p] {y : EStateM ε σ α} (h : p → wp x s Q E)
    (h' : ¬ p → wp y s Q E) : wp (if p then x else y) s Q E := by
  split_ifs with hp
  · exact h hp
  · exact h' hp

theorem run_error_of_wp {e : ε} (h : wp x s (fun _ _ => False) fun e' t => e' = e ∧ t = s') :
    x.run s = .error e s' := by
  unfold wp at h
  split at h
  · exact h.elim
  · rename_i e' t heq
    rw [heq, h.1, h.2]

/-- From `J`, the computation ends in `J`, or in `F` with an error. -/
def Preserves (J F : σ → Prop) (x : EStateM ε σ α) : Prop := ∀ s, J s → wp x s (fun _ => J) fun _ => F

namespace Preserves

variable {J F : σ → Prop}

theorem pure (a : α) : Preserves J F (Pure.pure a : EStateM ε σ α) := fun _ h => h

theorem throw (hF : ∀ s, J s → F s) (e : ε) :
    Preserves J F (MonadExcept.throw e : EStateM ε σ α) := fun s h => hF s h

/-- **Step by step.** -/
theorem bind {x : EStateM ε σ α} {f : α → EStateM ε σ β} (h : Preserves J F x)
    (hf : ∀ a, Preserves J F (f a)) : Preserves J F (x >>= f) := by
  intro s hs
  rw [wp_bind]
  exact wp_mono (h s hs) (fun a s' hs' => hf a s' hs') fun _ _ h => h

theorem ite {p : Prop} [Decidable p] {x y : EStateM ε σ α} (h : p → Preserves J F x)
    (h' : ¬ p → Preserves J F y) : Preserves J F (if p then x else y) := by
  split_ifs with hp
  · exact h hp
  · exact h' hp

theorem ofResult (hF : ∀ s, J s → F s) (r : Except ε α) :
    Preserves J F (Lib.ofResult r : EStateM ε σ α) := by
  cases r with
  | ok a => exact pure a
  | error e => exact throw hF e

theorem orThrow (hF : ∀ s, J s → F s) (o : Option α) (e : ε) :
    Preserves J F (Lib.orThrow o e : EStateM ε σ α) := by
  cases o with
  | some a => exact pure a
  | none => exact throw hF e

end Preserves

/-- **A loop over a list** keeps what every step keeps; `I` speaks of the elements gone through. -/
theorem wp_forM {f : β → EStateM ε σ PUnit} {E : ε → σ → Prop} (I : List β → σ → Prop) (l : List β)
    (step : ∀ done b s, done ++ [b] <+: l → I done s → wp (f b) s (fun _ s' => I (done ++ [b]) s') E)
    (h : I [] s) : wp (l.forM f) s (fun _ s' => I l s') E := by
  suffices ∀ rest done s, done ++ rest = l → I done s →
      wp (rest.forM f) s (fun _ s' => I (done ++ rest) s') E by
    simpa using this l [] s rfl h
  intro rest
  induction rest with
  | nil =>
    intro done s _ hI
    rw [List.append_nil]
    exact hI
  | cons b rest ih =>
    intro done s hl hI
    have hl' : (done ++ [b]) ++ rest = l := by rw [← hl, List.append_assoc, List.singleton_append]
    change wp (f b >>= fun _ => rest.forM f) s _ E
    rw [wp_bind]
    refine wp_mono (step done b s ⟨rest, hl'⟩ hI) (fun _ s' hI' => ?_) fun _ _ h => h
    have := ih (done ++ [b]) s' hl' hI'
    rwa [List.append_assoc, List.singleton_append] at this

/-- **A list of computations** that each yield `g` yields the list of them. -/
theorem wp_mapM {f : β → EStateM ε σ α} {g : β → α} {I : σ → Prop}
    (hf : ∀ b s, I s → wp (f b) s (fun a s' => a = g b ∧ I s') fun _ _ => False) (l : List β)
    (h : I s) : wp (l.mapM f) s (fun as s' => as = l.map g ∧ I s') fun _ _ => False := by
  induction l generalizing s with
  | nil => exact ⟨rfl, h⟩
  | cons b l ih =>
    rw [List.mapM_cons, wp_bind]
    refine wp_mono (hf b s h) (fun a s' ⟨ha, hs'⟩ => ?_) fun _ _ h => h
    rw [wp_bind]
    refine wp_mono (ih hs') (fun as t ⟨has, ht⟩ => ?_) fun _ _ h => h
    subst ha has
    exact ⟨rfl, ht⟩

end wp

/-! ## Parts of the state -/

/-- A computation on the part of the state that `get` reads and `put` writes. -/
def zoom (get : τ → σ) (put : σ → τ → τ) (x : EStateM ε σ α) : EStateM ε τ α := fun t =>
  match x.run (get t) with
  | .ok a s => .ok a (put s t)
  | .error e s => .error e (put s t)

section zoom

variable {get : τ → σ} {put : σ → τ → τ} {x : EStateM ε σ α} {t : τ} {s : σ}

theorem run_zoom_ok {a : α} (h : x.run (get t) = .ok a s) :
    (zoom get put x).run t = .ok a (put s t) := by
  change zoom get put x t = _
  rw [zoom, h]

theorem run_zoom_error {e : ε} (h : x.run (get t) = .error e s) :
    (zoom get put x).run t = .error e (put s t) := by
  change zoom get put x t = _
  rw [zoom, h]

@[simp] theorem wp_zoom {Q : α → τ → Prop} {E : ε → τ → Prop} : wp (zoom get put x) t Q E ↔
      wp x (get t) (fun a s => Q a (put s t)) fun e s => E e (put s t) := by
  cases hx : x.run (get t) with
  | ok a s => rw [wp_of_ok hx, wp_of_ok (run_zoom_ok hx)]
  | error e s => rw [wp_of_error hx, wp_of_error (run_zoom_error hx)]

end zoom

/-- An object and the world it acts on. -/
structure Owning (ω σ : Type) where
  self : ω
  world : σ

section Owning

variable {ω : Type}

/-- What a method does to the world. -/
def onWorld (x : EStateM ε σ α) : EStateM ε (Owning ω σ) α :=
  zoom Owning.world (fun w s => { s with world := w }) x

@[simp] theorem wp_onWorld {x : EStateM ε σ α} {s : Owning ω σ} {Q : α → Owning ω σ → Prop}
    {E : ε → Owning ω σ → Prop} : wp (onWorld x) s Q E ↔
      wp x s.world (fun a w => Q a { s with world := w }) fun e w => E e { s with world := w } :=
  wp_zoom

/-- A method called on the object `self`; after an error the object is dropped. -/
def withSelf (self : ω) (x : EStateM ε (Owning ω σ) α) : EStateM ε σ (α × ω) := fun w =>
  match x.run ⟨self, w⟩ with
  | .ok a s => .ok (a, s.self) s.world
  | .error e s => .error e s.world

theorem run_withSelf_ok {self : ω} {x : EStateM ε (Owning ω σ) α} {w : σ} {a : α} {s : Owning ω σ}
    (h : x.run ⟨self, w⟩ = .ok a s) : (withSelf self x).run w = .ok (a, s.self) s.world := by
  change withSelf self x w = _
  rw [withSelf, h]

theorem run_withSelf_error {self : ω} {x : EStateM ε (Owning ω σ) α} {w : σ} {e : ε}
    {s : Owning ω σ} (h : x.run ⟨self, w⟩ = .error e s) :
    (withSelf self x).run w = .error e s.world := by
  change withSelf self x w = _
  rw [withSelf, h]

@[simp] theorem wp_withSelf {self : ω} {x : EStateM ε (Owning ω σ) α} {w : σ}
    {Q : α × ω → σ → Prop} {E : ε → σ → Prop} : wp (withSelf self x) w Q E ↔
      wp x ⟨self, w⟩ (fun a s => Q (a, s.self) s.world) fun e s => E e s.world := by
  cases hx : x.run ⟨self, w⟩ with
  | ok a s => rw [wp_of_ok hx, wp_of_ok (run_withSelf_ok hx)]
  | error e s => rw [wp_of_error hx, wp_of_error (run_withSelf_error hx)]

/-- `self` in a method. -/
def getSelf : EStateM ε (Owning ω σ) ω := do
  return (← get).self

/-- An assignment to fields of `self`. -/
def modifySelf (f : ω → ω) : EStateM ε (Owning ω σ) PUnit :=
  modify fun s => { s with self := f s.self }

@[simp] theorem wp_getSelf {s : Owning ω σ} {Q : ω → Owning ω σ → Prop}
    {E : ε → Owning ω σ → Prop} : wp getSelf s Q E ↔ Q s.self s := Iff.rfl

@[simp] theorem wp_modifySelf {f : ω → ω} {s : Owning ω σ} {Q : PUnit → Owning ω σ → Prop}
    {E : ε → Owning ω σ → Prop} :
    wp (modifySelf f) s Q E ↔ Q ⟨⟩ { s with self := f s.self } := Iff.rfl

end Owning

/-! ## Simulation -/

/-- The same result or the same error, in related states. -/
inductive Agree (Rel RelE : σ → τ → Prop) :
    EStateM.Result ε σ α → EStateM.Result ε τ α → Prop
  | ok {a : α} {s : σ} {t : τ} : Rel s t → Agree Rel RelE (.ok a s) (.ok a t)
  | error {e : ε} {s : σ} {t : τ} : RelE s t → Agree Rel RelE (.error e s) (.error e t)

/-- The result or the error, without the state. -/
def outcome : EStateM.Result ε σ α → Except ε α
  | .ok a _ => .ok a
  | .error e _ => .error e

/-- The state at the end. -/
def final : EStateM.Result ε σ α → σ
  | .ok _ s => s
  | .error _ s => s

/-- What is known of the reply and of the state at the end. -/
theorem result_of_wp {x : EStateM ε σ α} {s : σ} {P : Except ε α → σ → Prop}
    (h : wp x s (fun a => P (.ok a)) fun e => P (.error e)) :
    P (outcome (x.run s)) (final (x.run s)) := by
  cases hx : x.run s with
  | ok a t => exact (wp_of_ok hx).mp h
  | error e t => exact (wp_of_error hx).mp h

theorem final_of_wp {x : EStateM ε σ α} {s : σ} {P : σ → Prop}
    (h : wp x s (fun _ => P) fun _ => P) : P (final (x.run s)) :=
  result_of_wp (P := fun _ => P) h

theorem wp_of_final {x : EStateM ε σ α} {s : σ} {P : σ → Prop} (h : P (final (x.run s))) :
    wp x s (fun _ => P) fun _ => P := by
  cases hx : x.run s with
  | ok a t =>
    rw [hx] at h
    exact (wp_of_ok hx).mpr h
  | error e t =>
    rw [hx] at h
    exact (wp_of_error hx).mpr h

theorem exists_of_isOk {r : EStateM.Result ε σ α} (h : (outcome r).isOk = true) :
    ∃ a s, r = .ok a s := by
  cases r with
  | ok a s => exact ⟨a, s, rfl⟩
  | error e s => cases h

/-- A computation that decides `p` by succeeding. -/
theorem outcome_eq_ok_iff {x : EStateM ε σ PUnit} {s : σ} {p : Prop}
    (h : wp x s (fun _ _ => p) fun _ _ => ¬ p) : outcome (x.run s) = .ok ⟨⟩ ↔ p := by
  unfold wp at h
  split at h
  · rename_i heq
    rw [heq]
    exact ⟨fun _ => h, fun _ => rfl⟩
  · rename_i heq
    rw [heq]
    constructor
    · intro h'
      cases h'
    · exact fun hp => absurd hp h

theorem Agree.outcome_eq {Rel RelE : σ → τ → Prop} {r : EStateM.Result ε σ α}
    {r' : EStateM.Result ε τ α} (h : Agree Rel RelE r r') : outcome r = outcome r' := by
  cases h <;> rfl

theorem Agree.final_rel {Rel RelE : σ → τ → Prop} {r : EStateM.Result ε σ α}
    {r' : EStateM.Result ε τ α} (h : Agree Rel RelE r r') (hE : ∀ s t, Rel s t → RelE s t) :
    RelE (final r) (final r') := by
  cases h with
  | ok h => exact hE _ _ h
  | error h => exact h

/-- What is known of the one computation carries over to the other. -/
theorem wp_of_agree {Rel RelE : σ → τ → Prop} {x : EStateM ε σ α} {y : EStateM ε τ α} {s : σ}
    {t : τ} {Q : α → σ → Prop} {E : ε → σ → Prop} {Q' : α → τ → Prop} {E' : ε → τ → Prop}
    (h : Agree Rel RelE (x.run s) (y.run t)) (hy : wp y t Q' E')
    (hQ : ∀ a s' t', Rel s' t' → Q' a t' → Q a s')
    (hE : ∀ e s' t', RelE s' t' → E' e t' → E e s') : wp x s Q E := by
  unfold wp at hy ⊢
  generalize x.run s = r, y.run t = r' at h hy
  cases h with
  | ok h => exact hQ _ _ _ h hy
  | error h => exact hE _ _ _ h hy

/-- Two computations whose outcome is specified agree. -/
theorem agree_of_wp {Rel RelE : σ → τ → Prop} {x : EStateM ε σ α} {y : EStateM ε τ α} {s : σ}
    {t : τ} {o : Except ε α} {P : α → σ → Prop} {P' : α → τ → Prop} {E : σ → Prop} {E' : τ → Prop}
    (hx : wp x s (fun a s' => o = .ok a ∧ P a s') fun e s' => o = .error e ∧ E s')
    (hy : wp y t (fun a t' => o = .ok a ∧ P' a t') fun e t' => o = .error e ∧ E' t')
    (h : ∀ a s' t', P a s' → P' a t' → Rel s' t') (hE : ∀ s' t', E s' → E' t' → RelE s' t') :
    Agree Rel RelE (x.run s) (y.run t) := by
  cases hxr : x.run s <;> cases hyr : y.run t <;> rw [wp, hxr] at hx <;> rw [wp, hyr] at hy
  · obtain ⟨rfl, hP⟩ := hx
    cases hy.1
    exact .ok (h _ _ _ hP hy.2)
  · obtain ⟨rfl, hP⟩ := hx
    cases hy.1
  · obtain ⟨rfl, hP⟩ := hx
    cases hy.1
  · obtain ⟨rfl, hP⟩ := hx
    cases hy.1
    exact .error (hE _ _ hP hy.2)

/-- From related states `x` and `y` give the same result or the same error, and end in states that
are related by `Rel` and by `RelE`. -/
def Sim (Rel RelE : σ → τ → Prop) (x : EStateM ε σ α) (y : EStateM ε τ α) : Prop :=
  ∀ s t, Rel s t → Agree Rel RelE (x.run s) (y.run t)

namespace Sim

variable {Rel RelE : σ → τ → Prop}

theorem pure (a : α) : Sim Rel RelE (Pure.pure a : EStateM ε σ α) (Pure.pure a : EStateM ε τ α) :=
  fun _ _ h => .ok h

theorem throw (hE : ∀ s t, Rel s t → RelE s t) (e : ε) :
    Sim Rel RelE (MonadExcept.throw e : EStateM ε σ α) (MonadExcept.throw e : EStateM ε τ α) :=
  fun _ _ h => .error (hE _ _ h)

/-- **Simulation runs through a computation step by step.** -/
theorem bind {x : EStateM ε σ α} {y : EStateM ε τ α} {f : α → EStateM ε σ β}
    {g : α → EStateM ε τ β} (h : Sim Rel RelE x y) (hf : ∀ a, Sim Rel RelE (f a) (g a)) :
    Sim Rel RelE (x >>= f) (y >>= g) := by
  intro s t hst
  have hxy := h s t hst
  generalize hx : x.run s = r, hy : y.run t = r' at hxy
  cases hxy with
  | ok h' =>
    rw [run_bind_ok hx, run_bind_ok hy]
    exact hf _ _ _ h'
  | error h' =>
    rw [run_bind_error hx, run_bind_error hy]
    exact .error h'

/-- Step by step, where the first step ensures `P` of its result. -/
theorem bind_of {x : EStateM ε σ α} {y : EStateM ε τ α} {f : α → EStateM ε σ β}
    {g : α → EStateM ε τ β} {P : α → Prop} (h : Sim Rel RelE x y)
    (hP : ∀ s, wp x s (fun a _ => P a) fun _ _ => True)
    (hf : ∀ a, P a → Sim Rel RelE (f a) (g a)) : Sim Rel RelE (x >>= f) (y >>= g) := by
  intro s t hst
  have hxy := h s t hst
  have hPs := hP s
  generalize hx : x.run s = r, hy : y.run t = r' at hxy
  cases hxy with
  | ok h' =>
    rw [run_bind_ok hx, run_bind_ok hy]
    exact hf _ ((wp_of_ok hx).mp hPs) _ _ h'
  | error h' =>
    rw [run_bind_error hx, run_bind_error hy]
    exact .error h'

theorem mapError {ε' : Type} (f : ε → ε') {x : EStateM ε σ α} {y : EStateM ε τ α}
    (h : Sim Rel RelE x y) : Sim Rel RelE (Lib.mapError f x) (Lib.mapError f y) := by
  intro s t hst
  have hxy := h s t hst
  generalize hx : x.run s = r, hy : y.run t = r' at hxy
  cases hxy with
  | ok h' =>
    rw [run_mapError_ok f hx, run_mapError_ok f hy]
    exact .ok h'
  | error h' =>
    rw [run_mapError_error f hx, run_mapError_error f hy]
    exact .error h'

theorem attempt {x : EStateM ε σ α} {y : EStateM ε τ α} (h : Sim Rel Rel x y) :
    Sim Rel RelE (Lib.attempt x) (Lib.attempt y) := by
  intro s t hst
  have hxy := h s t hst
  change Agree Rel RelE (Lib.attempt x s) (Lib.attempt y t)
  unfold Lib.attempt
  generalize x.run s = r, y.run t = r' at hxy
  cases hxy with
  | ok h' => exact .ok h'
  | error h' => exact .ok h'

theorem map {f : α → β} {x : EStateM ε σ α} {y : EStateM ε τ α} (h : Sim Rel RelE x y) :
    Sim Rel RelE (f <$> x) (f <$> y) := by
  rw [map_eq_pure_bind, map_eq_pure_bind]
  exact h.bind fun a => pure (f a)

theorem ite {p : Prop} [Decidable p] {x x' : EStateM ε σ α} {y y' : EStateM ε τ α}
    (h : p → Sim Rel RelE x y) (h' : ¬ p → Sim Rel RelE x' y') :
    Sim Rel RelE (if p then x else x') (if p then y else y') := by
  split_ifs with hp
  · exact h hp
  · exact h' hp

/-- An optional step in front of the rest. -/
theorem optional {p : Prop} [Decidable p] {x : EStateM ε σ PUnit} {y : EStateM ε τ PUnit}
    {f : PUnit → EStateM ε σ β} {g : PUnit → EStateM ε τ β} (h : Sim Rel RelE x y)
    (hf : ∀ a, Sim Rel RelE (f a) (g a)) :
    Sim Rel RelE (if p then x >>= f else f ⟨⟩) (if p then y >>= g else g ⟨⟩) :=
  ite (fun _ => h.bind hf) fun _ => hf ⟨⟩

theorem orThrow (hE : ∀ s t, Rel s t → RelE s t) (o : Option α) (e : ε) :
    Sim Rel RelE (Lib.orThrow o e : EStateM ε σ α) (Lib.orThrow o e) := by
  cases o with
  | some a => exact pure a
  | none => exact throw hE e

theorem ofResult (hE : ∀ s t, Rel s t → RelE s t) (r : Except ε α) :
    Sim Rel RelE (Lib.ofResult r : EStateM ε σ α) (Lib.ofResult r) := by
  cases r with
  | ok a => exact pure a
  | error e => exact throw hE e

section parts

variable {ω : Type} {RelO : Owning ω σ → Owning ω τ → Prop}

theorem onWorld {x : EStateM ε σ α} {y : EStateM ε τ α} (h : Sim Rel Rel x y)
    (hget : ∀ u v, RelO u v → Rel u.world v.world)
    (hput : ∀ u v s t, RelO u v → Rel s t → RelO { u with world := s } { v with world := t }) :
    Sim RelO RelO (Lib.onWorld x) (Lib.onWorld y) := by
  intro u v huv
  have hxy := h u.world v.world (hget u v huv)
  change Agree RelO RelO (Lib.onWorld x u) (Lib.onWorld y v)
  unfold Lib.onWorld zoom
  generalize x.run u.world = r, y.run v.world = r' at hxy
  cases hxy with
  | ok h' => exact .ok (hput _ _ _ _ huv h')
  | error h' => exact .error (hput _ _ _ _ huv h')

theorem withSelf {x : EStateM ε (Owning ω σ) α} {y : EStateM ε (Owning ω τ) α} {g : ω}
    (h : Sim RelO RelO x y) (hself : ∀ u v, RelO u v → u.self = v.self ∧ Rel u.world v.world)
    (hstart : ∀ s t, Rel s t → RelO ⟨g, s⟩ ⟨g, t⟩) :
    Sim Rel Rel (Lib.withSelf g x) (Lib.withSelf g y) := by
  intro s t hst
  have hxy := h ⟨g, s⟩ ⟨g, t⟩ (hstart s t hst)
  change Agree Rel Rel (Lib.withSelf g x s) (Lib.withSelf g y t)
  unfold Lib.withSelf
  generalize x.run ⟨g, s⟩ = r, y.run ⟨g, t⟩ = r' at hxy
  cases hxy with
  | ok h' =>
    obtain ⟨heq, hworld⟩ := hself _ _ h'
    dsimp only
    rw [heq]
    exact .ok hworld
  | error h' => exact .error (hself _ _ h').2

end parts

/-- What a computation keeps, read off its simulation by itself. -/
theorem keeps {I : σ → Prop} {x : EStateM ε σ α}
    (h : Sim (fun s t => s = t ∧ I s) (fun s t => s = t ∧ I s) x x) {s : σ} (hs : I s) :
    wp x s (fun _ => I) fun _ => I := by
  have hx := h s s ⟨rfl, hs⟩
  cases hr : x.run s with
  | ok a s' =>
    rw [hr] at hx
    cases hx with
    | ok h' => exact (wp_of_ok hr).mpr h'.2
  | error e s' =>
    rw [hr] at hx
    cases hx with
    | error h' => exact (wp_of_error hr).mpr h'.2

theorem of_keeps {I : σ → Prop} {x : EStateM ε σ α} (h : ∀ s, I s → wp x s (fun _ => I) fun _ => I) :
    Sim (fun s t => s = t ∧ I s) (fun s t => s = t ∧ I s) x x := by
  rintro s _ ⟨rfl, hs⟩
  have hx := h s hs
  cases hr : x.run s with
  | ok a s' => exact .ok ⟨rfl, (wp_of_ok hr).mp hx⟩
  | error e s' => exact .error ⟨rfl, (wp_of_error hr).mp hx⟩

end Sim

/-- From related states, where `x` gives a result, `y` gives the same, and they end in related
states. -/
def Tracks (Rel : σ → τ → Prop) (x : EStateM ε σ α) (y : EStateM ε τ α) : Prop :=
  ∀ s t, Rel s t → wp x s
    (fun a s' => wp y t (fun b t' => b = a ∧ Rel s' t') fun _ _ => False) fun _ _ => True

namespace Tracks

variable {Rel : σ → τ → Prop}

theorem pure (a : α) :
    Tracks Rel (Pure.pure a : EStateM ε σ α) (Pure.pure a : EStateM ε τ α) :=
  fun _ _ h => ⟨rfl, h⟩

/-- **Step by step.** -/
theorem bind {x : EStateM ε σ α} {y : EStateM ε τ α} {f : α → EStateM ε σ β}
    {g : α → EStateM ε τ β} (h : Tracks Rel x y) (hf : ∀ a, Tracks Rel (f a) (g a)) :
    Tracks Rel (x >>= f) (y >>= g) := by
  intro s t hst
  rw [wp_bind]
  refine wp_mono (h s t hst) (fun a s' hy => ?_) fun _ _ _ => trivial
  obtain ⟨b, t', hrun, rfl, hst'⟩ := exists_run_of_wp hy
  refine wp_mono (hf b s' t' hst') (fun c s'' hg => ?_) fun _ _ _ => trivial
  rw [wp_bind, wp_of_ok hrun]
  exact hg

theorem mapM {f : α → EStateM ε σ β} {g : α → EStateM ε τ β} (h : ∀ a, Tracks Rel (f a) (g a))
    (l : List α) : Tracks Rel (l.mapM f) (l.mapM g) := by
  induction l with
  | nil => exact pure []
  | cons a l ih =>
    rw [List.mapM_cons, List.mapM_cons]
    exact (h a).bind fun b => ih.bind fun bs => pure (b :: bs)

/-- What a run that succeeded says of the other. -/
theorem of_run {x : EStateM ε σ α} {y : EStateM ε τ α} (h : Tracks Rel x y) {s s' : σ} {t : τ}
    {a : α} (hst : Rel s t) (hx : x.run s = .ok a s') : ∃ t', y.run t = .ok a t' ∧ Rel s' t' := by
  obtain ⟨b, t', hrun, rfl, hst'⟩ := exists_run_of_wp ((wp_of_ok hx).mp (h s t hst))
  exact ⟨t', hrun, hst'⟩

end Tracks

end Lib
