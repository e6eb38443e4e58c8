import KChat.Lib.Transaction

/-!
# What a failure of the store interrupts

A computation is compared with itself where nothing fails.

* `Surroundings.spared`: the surroundings without failures; `FailsWithin`: a failure occurs between
  two moments.
* `Interrupted env clock x y`: `x` does what `y` does, unless a failure occurs while `y` would run;
  then `x` fails. **`Interrupted.bind`**, `Interrupted.call`, **`Interrupted.transaction`**.
* `Interrupted.hit_iff`, `Interrupted.ok_iff`: when a failure is met, and when there is a result.
-/

namespace Lib

variable {δ χ φ ε σ τ ω α β : Type}

/-- The surroundings without their failures. -/
def Surroundings.spared (env : Surroundings δ φ) : Surroundings δ φ where
  others := env.others
  fault _ := none

/-- **A failure occurs** from one moment on and before another. -/
def Surroundings.FailsWithin (env : Surroundings δ φ) (a b : ℕ) : Prop :=
  ∃ t, a ≤ t ∧ t < b ∧ (env.fault t).isSome

section within

variable {env : Surroundings δ φ} {a b c : ℕ}

theorem not_failsWithin_self : ¬ env.FailsWithin a a := by
  rintro ⟨t, ha, hb, -⟩
  omega

theorem Surroundings.FailsWithin.mono_left (h : env.FailsWithin b c) (hab : a ≤ b) :
    env.FailsWithin a c := by
  obtain ⟨t, hb, hc, ht⟩ := h
  exact ⟨t, Nat.le_trans hab hb, hc, ht⟩

theorem Surroundings.FailsWithin.mono_right (h : env.FailsWithin a b) (hbc : b ≤ c) :
    env.FailsWithin a c := by
  obtain ⟨t, ha, hb, ht⟩ := h
  exact ⟨t, ha, Nat.lt_of_lt_of_le hb hbc, ht⟩

/-- A failure occurs in the first part or in the second. -/
theorem failsWithin_or (h : env.FailsWithin a c) (b : ℕ) :
    env.FailsWithin a b ∨ env.FailsWithin b c := by
  obtain ⟨t, ha, hc, ht⟩ := h
  rcases Nat.lt_or_ge t b with hb | hb
  · exact .inl ⟨t, ha, hb, ht⟩
  · exact .inr ⟨t, hb, hc, ht⟩

theorem fault_eq_none (h : ¬ env.FailsWithin a c) (hab : a ≤ b) (hbc : b < c) :
    env.fault b = none :=
  Option.not_isSome_iff_eq_none.mp fun hb => h ⟨b, hab, hbc, hb⟩

theorem failsWithin_succ : env.FailsWithin a (a + 1) ↔ (env.fault a).isSome := by
  constructor
  · rintro ⟨t, ha, hb, ht⟩
    obtain rfl : t = a := by omega
    exact ht
  · exact fun h => ⟨a, Nat.le_refl a, Nat.lt_succ_self a, h⟩

end within

/-- **`x` is `y`, interrupted by failures**: it does what `y` does if no failure occurs while `y`
runs, and fails otherwise, after the failure. -/
structure Interrupted (env : Surroundings δ φ) (clock : σ → ℕ) (x y : EStateM ε σ α) : Prop where
  clock_le : ∀ s, clock s ≤ clock (final (y.run s))
  spared : ∀ s, ¬ env.FailsWithin (clock s) (clock (final (y.run s))) → x.run s = y.run s
  hit : ∀ s, env.FailsWithin (clock s) (clock (final (y.run s))) →
    ∃ e t, x.run s = .error e t ∧ env.FailsWithin (clock s) (clock t)

namespace Interrupted

variable {env : Surroundings δ φ} {clock : σ → ℕ}

/-- What takes no time meets no failure. -/
theorem of_still {x : EStateM ε σ α} (h : ∀ s, clock (final (x.run s)) = clock s) :
    Interrupted env clock x x where
  clock_le s := Nat.le_of_eq (h s).symm
  spared _ _ := rfl
  hit s hfails := by
    rw [h s] at hfails
    exact absurd hfails not_failsWithin_self

theorem pure (a : α) :
    Interrupted env clock (Pure.pure a : EStateM ε σ α) (Pure.pure a) := of_still fun _ => rfl

theorem throw (e : ε) : Interrupted env clock (MonadExcept.throw e : EStateM ε σ α)
    (MonadExcept.throw e) := of_still fun _ => rfl

theorem ofResult (r : Except ε α) :
    Interrupted env clock (Lib.ofResult r : EStateM ε σ α) (Lib.ofResult r) := by
  cases r with
  | ok a => exact pure a
  | error e => exact throw e

theorem orThrow (o : Option α) (e : ε) :
    Interrupted env clock (Lib.orThrow o e : EStateM ε σ α) (Lib.orThrow o e) := by
  cases o with
  | some a => exact pure a
  | none => exact throw e

/-- **Step by step**: the failure occurs during the first step, or during the rest. -/
theorem bind {x y : EStateM ε σ α} {f g : α → EStateM ε σ β} (h : Interrupted env clock x y)
    (hf : ∀ a, Interrupted env clock (f a) (g a)) :
    Interrupted env clock (x >>= f) (y >>= g) where
  clock_le s := by
    have hle := h.clock_le s
    cases hy : y.run s with
    | ok a s₁ =>
      rw [hy] at hle
      rw [run_bind_ok hy]
      exact Nat.le_trans hle ((hf a).clock_le s₁)
    | error e s₁ =>
      rw [hy] at hle
      rw [run_bind_error hy]
      exact hle
  spared s hspared := by
    have hle := h.clock_le s
    have hx := h.spared s
    cases hy : y.run s with
    | ok a s₁ =>
      rw [hy] at hle hx
      rw [run_bind_ok hy] at hspared ⊢
      have hrest := (hf a).clock_le s₁
      rw [run_bind_ok (hx fun hfails => hspared (hfails.mono_right hrest))]
      exact (hf a).spared s₁ fun hfails => hspared (hfails.mono_left hle)
    | error e s₁ =>
      rw [hy] at hx
      rw [run_bind_error hy] at hspared ⊢
      exact run_bind_error (hx hspared)
  hit s hfails := by
    have hle := h.clock_le s
    have hx := h.spared s
    have hfirst := h.hit s
    cases hy : y.run s with
    | ok a s₁ =>
      rw [hy] at hle hx hfirst
      rw [run_bind_ok hy] at hfails
      by_cases hsoon : env.FailsWithin (clock s) (clock s₁)
      · obtain ⟨e, t, hrun, ht⟩ := hfirst hsoon
        exact ⟨e, t, run_bind_error hrun, ht⟩
      · have hlate := (failsWithin_or hfails (clock s₁)).resolve_left hsoon
        obtain ⟨e, t, hrun, ht⟩ := (hf a).hit s₁ hlate
        refine ⟨e, t, ?_, ht.mono_left hle⟩
        rw [run_bind_ok (hx hsoon)]
        exact hrun
    | error e s₁ =>
      rw [hy] at hfirst
      rw [run_bind_error hy] at hfails
      obtain ⟨e', t, hrun, ht⟩ := hfirst hfails
      exact ⟨e', t, run_bind_error hrun, ht⟩

theorem final_mapError {ε' : Type} (f : ε → ε') (x : EStateM ε σ α) (s : σ) :
    final ((Lib.mapError f x).run s) = final (x.run s) := by
  cases hx : x.run s with
  | ok a t => rw [run_mapError_ok f hx]; rfl
  | error e t => rw [run_mapError_error f hx]; rfl

theorem mapError {ε' : Type} (f : ε → ε') {x y : EStateM ε σ α} (h : Interrupted env clock x y) :
    Interrupted env clock (Lib.mapError f x) (Lib.mapError f y) where
  clock_le s := by
    rw [final_mapError]
    exact h.clock_le s
  spared s hspared := by
    rw [final_mapError] at hspared
    change Lib.mapError f x s = Lib.mapError f y s
    rw [Lib.mapError, Lib.mapError, h.spared s hspared]
  hit s hfails := by
    rw [final_mapError] at hfails
    obtain ⟨e, t, hrun, ht⟩ := h.hit s hfails
    exact ⟨f e, t, run_mapError_error f hrun, ht⟩

theorem final_zoom (get : τ → σ) (put : σ → τ → τ) (x : EStateM ε σ α) (t : τ) :
    final ((Lib.zoom get put x).run t) = put (final (x.run (get t))) t := by
  cases hx : x.run (get t) with
  | ok a s => rw [run_zoom_ok hx]; rfl
  | error e s => rw [run_zoom_error hx]; rfl

/-- A part of the state that has the clock. -/
theorem zoom {get : τ → σ} {put : σ → τ → τ} {clock' : τ → ℕ} {x y : EStateM ε σ α}
    (h : Interrupted env clock x y) (hget : ∀ t, clock' t = clock (get t))
    (hput : ∀ s t, clock' (put s t) = clock s) :
    Interrupted env clock' (Lib.zoom get put x) (Lib.zoom get put y) where
  clock_le t := by
    rw [final_zoom, hget, hput]
    exact h.clock_le (get t)
  spared t hspared := by
    rw [final_zoom, hget, hput] at hspared
    change Lib.zoom get put x t = Lib.zoom get put y t
    rw [Lib.zoom, Lib.zoom, h.spared (get t) hspared]
  hit t hfails := by
    rw [final_zoom, hget, hput] at hfails
    obtain ⟨e, s, hrun, hs⟩ := h.hit (get t) hfails
    refine ⟨e, put s t, run_zoom_error hrun, ?_⟩
    rw [hget, hput]
    exact hs

theorem onWorld {x y : EStateM ε σ α} (h : Interrupted env clock x y) :
    Interrupted env (fun s : Owning ω σ => clock s.world) (Lib.onWorld x) (Lib.onWorld y) :=
  h.zoom (fun _ => rfl) fun _ _ => rfl

theorem final_withSelf (self : ω) (x : EStateM ε (Owning ω σ) α) (w : σ) :
    final ((Lib.withSelf self x).run w) = (final (x.run ⟨self, w⟩)).world := by
  cases hx : x.run ⟨self, w⟩ with
  | ok a s => rw [run_withSelf_ok hx]; rfl
  | error e s => rw [run_withSelf_error hx]; rfl

theorem withSelf {self : ω} {x y : EStateM ε (Owning ω σ) α}
    (h : Interrupted env (fun s : Owning ω σ => clock s.world) x y) :
    Interrupted env clock (Lib.withSelf self x) (Lib.withSelf self y) where
  clock_le w := by
    rw [final_withSelf]
    exact h.clock_le ⟨self, w⟩
  spared w hspared := by
    rw [final_withSelf] at hspared
    change Lib.withSelf self x w = Lib.withSelf self y w
    rw [Lib.withSelf, Lib.withSelf, h.spared ⟨self, w⟩ hspared]
  hit w hfails := by
    rw [final_withSelf] at hfails
    obtain ⟨e, s, hrun, hs⟩ := h.hit ⟨self, w⟩ hfails
    exact ⟨e, s.world, run_withSelf_error hrun, hs⟩

/-! ## Uses of the store, and transactions -/

/-- The time of a session whose computation owns an object. -/
abbrev time (s : Owning ω (Session δ χ)) : ℕ := s.world.time

theorem unowned {x y : EStateM ε (Owning Unit (Session δ χ)) α} (h : Interrupted env time x y) :
    Interrupted env Session.time (Lib.unowned x) (Lib.unowned y) := by
  unfold Lib.unowned
  rw [map_eq_pure_bind, map_eq_pure_bind]
  exact h.withSelf.bind fun a => pure a.1

theorem final_call (env : Surroundings δ φ) (op : Option φ → EStateM ε (Owning ω δ) α)
    (s : Owning ω (Session δ χ)) : time (final ((Lib.call env op).run s)) = time s + 1 := by
  have hrun : wp (Lib.call env op) s (fun _ t => time t = time s + 1)
      fun _ t => time t = time s + 1 := by
    rw [wp_call]
    exact wp_mono (wp_true _ _) (fun _ _ _ => rfl) fun _ _ _ => rfl
  exact final_of_wp hrun

/-- **One use of the store** that fails if it is hit. -/
theorem call {op : Option φ → EStateM ε (Owning ω δ) α}
    (h : ∀ e s, ∃ e' t, (op (some e)).run s = .error e' t) :
    Interrupted env (time (χ := χ)) (Lib.call env op) (Lib.call env.spared op) where
  clock_le s := by
    rw [final_call]
    exact Nat.le_succ _
  spared s hspared := by
    rw [final_call, failsWithin_succ, Option.not_isSome_iff_eq_none] at hspared
    change Lib.call env op s = Lib.call env.spared op s
    rw [Lib.call, Lib.call, hspared]
    rfl
  hit s hfails := by
    rw [final_call] at hfails
    obtain ⟨e, he⟩ := Option.isSome_iff_exists.mp (failsWithin_succ.mp hfails)
    obtain ⟨e', t, hrun⟩ := h e ⟨s.self, s.world.store⟩
    have hfailed : wp (Lib.call env op) s (fun _ _ => False) fun _ t => time t = time s + 1 := by
      rw [wp_call, he]
      exact (wp_of_error hrun).mpr rfl
    obtain ⟨e'', u, hu, htime⟩ := exists_error_of_wp hfailed
    refine ⟨e'', u, hu, ?_⟩
    rw [htime]
    exact hfails

/-- Where nothing fails, a transaction ends as its computation does. -/
theorem run_spared_ok {toFault : ε → φ} {y : EStateM ε (Owning ω (Session δ χ)) α}
    {s t : Owning ω (Session δ χ)} {a : α}
    (hy : y.run ⟨s.self, (s.world.await env).tick⟩ = .ok a t) :
    (Lib.transaction env.spared toFault y).run s =
      .ok a ⟨t.self, (t.world.commit (s.world.await env)).tick⟩ :=
  run_transaction_ok rfl hy rfl

theorem run_spared_error {toFault : ε → φ} {y : EStateM ε (Owning ω (Session δ χ)) α}
    {s t : Owning ω (Session δ χ)} {e : ε}
    (hy : y.run ⟨s.self, (s.world.await env).tick⟩ = .error e t) :
    (Lib.transaction env.spared toFault y).run s =
      .error (toFault e) ⟨t.self, t.world.rollback (s.world.await env)⟩ :=
  run_transaction_error rfl hy

section transaction

variable {toFault : ε → φ} {x y : EStateM ε (Owning ω (Session δ χ)) α}
  (h : Interrupted env time x y)
include h

theorem transaction_clock_le (s : Owning ω (Session δ χ)) :
    time s ≤ time (final ((Lib.transaction env.spared toFault y).run s)) := by
  have hle := h.clock_le ⟨s.self, (s.world.await env).tick⟩
  cases hy : y.run ⟨s.self, (s.world.await env).tick⟩ with
  | ok a t =>
    rw [hy] at hle
    rw [run_spared_ok hy]
    exact Nat.le_succ_of_le (Nat.le_of_succ_le hle)
  | error e t =>
    rw [hy] at hle
    rw [run_spared_error hy]
    exact Nat.le_of_succ_le hle

/-- No failure occurs: the transaction begins, and is committed if its computation succeeds. -/
theorem transaction_spared (s : Owning ω (Session δ χ)) (hspared : ¬ env.FailsWithin (time s)
      (time (final ((Lib.transaction env.spared toFault y).run s)))) :
    (Lib.transaction env toFault x).run s = (Lib.transaction env.spared toFault y).run s := by
  have hle := h.clock_le ⟨s.self, (s.world.await env).tick⟩
  have hx := h.spared ⟨s.self, (s.world.await env).tick⟩
  cases hy : y.run ⟨s.self, (s.world.await env).tick⟩ with
  | ok a t =>
    rw [hy] at hle hx
    rw [run_spared_ok hy] at hspared ⊢
    change ¬ env.FailsWithin (time s) (time t + 1) at hspared
    change time s + 1 ≤ time t at hle
    have hinside : ¬ env.FailsWithin (time s + 1) (time t) := fun hf =>
      hspared ((hf.mono_left (Nat.le_succ _)).mono_right (Nat.le_succ _))
    have hbegin := fault_eq_none hspared (Nat.le_refl _) (Nat.le_succ_of_le hle)
    have hcommit := fault_eq_none hspared (Nat.le_of_succ_le hle) (Nat.lt_succ_self _)
    exact run_transaction_ok hbegin (hx hinside) hcommit
  | error e t =>
    rw [hy] at hle hx
    rw [run_spared_error hy] at hspared ⊢
    change ¬ env.FailsWithin (time s) (time t) at hspared
    change time s + 1 ≤ time t at hle
    have hinside : ¬ env.FailsWithin (time s + 1) (time t) := fun hf =>
      hspared (hf.mono_left (Nat.le_succ _))
    exact run_transaction_error (fault_eq_none hspared (Nat.le_refl _) hle) (hx hinside)

/-- A failure occurs: at the beginning, inside, or when the transaction is committed. -/
theorem transaction_hit (s : Owning ω (Session δ χ)) (hfails : env.FailsWithin (time s)
      (time (final ((Lib.transaction env.spared toFault y).run s)))) :
    ∃ e t, (Lib.transaction env toFault x).run s = .error e t ∧
      env.FailsWithin (time s) (time t) := by
  have hle := h.clock_le ⟨s.self, (s.world.await env).tick⟩
  have hx := h.spared ⟨s.self, (s.world.await env).tick⟩
  have hinside := h.hit ⟨s.self, (s.world.await env).tick⟩
  cases hfault : env.fault (time s) with
  | some e =>
    exact ⟨e, _, run_transaction_begin hfault, failsWithin_succ.mpr (by rw [hfault]; rfl)⟩
  | none =>
    have hlater : ∀ {b}, env.FailsWithin (time s) b → env.FailsWithin (time s + 1) b :=
      fun hf => (failsWithin_or hf (time s + 1)).resolve_left fun hnow => by
        rw [failsWithin_succ, hfault] at hnow
        cases hnow
    have hbody : ∀ {e t}, x.run ⟨s.self, (s.world.await env).tick⟩ = .error e t →
        env.FailsWithin (time s + 1) (time t) →
        ∃ e t, (Lib.transaction env toFault x).run s = .error e t ∧
          env.FailsWithin (time s) (time t) := fun hrun ht =>
      ⟨_, _, run_transaction_error hfault hrun, ht.mono_left (Nat.le_succ _)⟩
    cases hy : y.run ⟨s.self, (s.world.await env).tick⟩ with
    | error e t =>
      rw [hy] at hinside
      rw [run_spared_error hy] at hfails
      obtain ⟨e', t', hrun, ht'⟩ := hinside (hlater hfails)
      exact hbody hrun ht'
    | ok a t =>
      rw [hy] at hle hx hinside
      rw [run_spared_ok hy] at hfails
      by_cases hsoon : env.FailsWithin (time s + 1) (time t)
      · obtain ⟨e', t', hrun, ht'⟩ := hinside hsoon
        exact hbody hrun ht'
      · have hlast := (failsWithin_or (hlater hfails) (time t)).resolve_left hsoon
        obtain ⟨e, he⟩ := Option.isSome_iff_exists.mp (failsWithin_succ.mp hlast)
        refine ⟨e, _, run_transaction_undone hfault (hx hsoon) he, ?_⟩
        exact hlast.mono_left (Nat.le_of_succ_le hle)

/-- **A transaction** is interrupted as its computation is, and when it begins or is committed. -/
theorem transaction : Interrupted env time (Lib.transaction env toFault x)
    (Lib.transaction env.spared toFault y) where
  clock_le := h.transaction_clock_le
  spared := h.transaction_spared
  hit := h.transaction_hit

end transaction

/-! ## What is known of a run -/

variable {x y : EStateM ε σ α} {s : σ}

/-- **A failure is met**, and ends the run, iff it occurs while nothing else would end it. -/
theorem hit_iff (h : Interrupted env clock x y) :
    (∃ e t, x.run s = .error e t ∧ env.FailsWithin (clock s) (clock t)) ↔
      env.FailsWithin (clock s) (clock (final (y.run s))) := by
  refine ⟨fun ⟨e, t, hrun, ht⟩ => ?_, h.hit s⟩
  by_contra hnone
  have hsame := h.spared s hnone
  rw [hrun] at hsame
  rw [← hsame] at hnone
  exact hnone ht

/-- **There is a result** iff there would be one and no failure occurs. -/
theorem ok_iff (h : Interrupted env clock x y) {a : α} {t : σ} : x.run s = .ok a t ↔
    y.run s = .ok a t ∧ ¬ env.FailsWithin (clock s) (clock t) := by
  constructor
  · intro hrun
    have hnone : ¬ env.FailsWithin (clock s) (clock (final (y.run s))) := by
      intro hfails
      obtain ⟨e, u, hu, -⟩ := h.hit s hfails
      rw [hrun] at hu
      cases hu
    have hy : y.run s = .ok a t := (h.spared s hnone).symm.trans hrun
    rw [hy] at hnone
    exact ⟨hy, hnone⟩
  · rintro ⟨hy, hnone⟩
    rw [h.spared s (by rw [hy]; exact hnone), hy]

end Interrupted

end Lib
