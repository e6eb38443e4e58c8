import KChat.Lib.Transaction

/-!
# Serial orders

A store is changed by operations of other writers and by events of a session's own.

* `Chain step events v v'`: the events take place one after another, each from where the one before
  it led.
* `Serializes env step own s s'`: from `s` to `s'` the store changed as in a chain of the operations
  that others committed in between and of the events `own`, each of them once and in order.
  **`Serializes.trans`**, `Serializes.await`, `Serializes.single`.
-/

namespace Lib

variable {δ χ φ σ Own : Type}

/-! ## Chains -/

section Chain

variable {ι : Type} {step : ι → σ → σ → Prop}

/-- Events one after another. -/
inductive Chain (step : ι → σ → σ → Prop) : List ι → σ → σ → Prop
  | nil (v : σ) : Chain step [] v v
  | cons {e : ι} {events : List ι} {v w u : σ} :
    step e v w → Chain step events w u → Chain step (e :: events) v u

theorem Chain.append {events events' : List ι} {v w u : σ} (h : Chain step events v w)
    (h' : Chain step events' w u) : Chain step (events ++ events') v u := by
  induction h with
  | nil => exact h'
  | cons he _ ih => exact .cons he (ih h')

/-- What every event keeps, a chain keeps. -/
theorem Chain.keeps {I : σ → Prop} {events : List ι} {v w : σ} (h : Chain step events v w)
    (hstep : ∀ e ∈ events, ∀ v w, step e v w → I v → I w) (hv : I v) : I w := by
  induction h with
  | nil => exact hv
  | cons he _ ih =>
    exact ih (fun e h => hstep e (List.mem_cons_of_mem _ h)) (hstep _ List.mem_cons_self _ _ he hv)

/-- What one event brings about and every event keeps, a chain with that event brings about. -/
theorem Chain.of_mem {I : σ → Prop} {events : List ι} {v w : σ} (h : Chain step events v w)
    {e : ι} (hmem : e ∈ events) (he : ∀ v w, step e v w → I w)
    (hstep : ∀ e ∈ events, ∀ v w, step e v w → I v → I w) : I w := by
  induction h with
  | nil => cases hmem
  | cons hfirst hrest ih =>
    have hrest' := fun e h => hstep e (List.mem_cons_of_mem _ h)
    rcases List.mem_cons.mp hmem with rfl | hmem
    · exact hrest.keeps hrest' (he _ _ hfirst)
    · exact ih hmem hrest'

end Chain

/-! ## Serial orders -/

/-- An operation of another writer, or an event of one's own. -/
def serialStep (step : Own → δ → δ → Prop) : (δ → δ) ⊕ Own → δ → δ → Prop
  | .inl op, v, w => w = op v
  | .inr e, v, w => step e v w

theorem chain_operations (step : Own → δ → δ → Prop) (l : List (δ → δ)) (db : δ) :
    Chain (serialStep step) (l.map Sum.inl) db (l.foldl (fun db f => f db) db) := by
  induction l generalizing db with
  | nil => exact .nil _
  | cons op l ih => exact .cons rfl (ih _)

/-- **A serial order** of what happened to the store: what others committed, and one's own events. -/
def Serializes (env : Surroundings δ φ) (step : Own → δ → δ → Prop) (own : List Own)
    (s s' : Session δ χ) : Prop :=
  s.seen ≤ s'.seen ∧ ∃ events : List ((δ → δ) ⊕ Own),
    Chain (serialStep step) events s.store s'.store ∧
      events.filterMap Sum.getLeft? = env.between s.seen s'.seen ∧
      events.filterMap Sum.getRight? = own

namespace Serializes

variable {env : Surroundings δ φ} {step : Own → δ → δ → Prop} {own own' : List Own}
  {s s' s'' : Session δ χ}

theorem between_self (a : ℕ) : env.between a a = [] := by
  rw [Surroundings.between, Nat.sub_self]
  rfl

/-- Nothing happened. -/
theorem of_store (h : s'.store = s.store) (hseen : s'.seen = s.seen) :
    Serializes env step [] s s' := by
  refine ⟨Nat.le_of_eq hseen.symm, [], ?_, ?_, rfl⟩
  · rw [h]
    exact .nil _
  · rw [hseen, between_self]
    rfl

/-- **Serial orders one after another.** -/
theorem trans (h : Serializes env step own s s') (h' : Serializes env step own' s' s'') :
    Serializes env step (own ++ own') s s'' := by
  obtain ⟨hle, events, hchain, hothers, hown⟩ := h
  obtain ⟨hle', events', hchain', hothers', hown'⟩ := h'
  refine ⟨Nat.le_trans hle hle', events ++ events', hchain.append hchain', ?_, ?_⟩
  · rw [List.filterMap_append, hothers, hothers', Surroundings.between_append hle hle']
  · rw [List.filterMap_append, hown, hown']

/-- The others commit what they have to. -/
theorem await (s : Session δ χ) : Serializes env step [] s (s.await env) := by
  refine ⟨Nat.le_max_left _ _, (env.between s.seen (s.await env).seen).map Sum.inl, ?_, ?_, ?_⟩
  · rw [await_store]
    exact chain_operations step _ _
  · rw [List.filterMap_map]
    exact List.filterMap_some
  · rw [List.filterMap_map, List.filterMap_eq_nil_iff]
    exact fun _ _ => rfl

/-- One event of one's own. -/
theorem single {e : Own} (h : step e s.store s'.store) (hseen : s'.seen = s.seen) :
    Serializes env step [e] s s' := by
  refine ⟨Nat.le_of_eq hseen.symm, [.inr e], .cons h (.nil _), ?_, rfl⟩
  rw [hseen, between_self]
  rfl

/-- Nothing but the others' operations. -/
theorem of_await (h : s'.store = (s.await env).store) (hseen : s'.seen = (s.await env).seen) :
    Serializes env step [] s s' :=
  (await s).trans (of_store h hseen)

/-- An event behind the others' operations. -/
theorem of_step {e : Own} (h : step e (s.await env).store s'.store)
    (hseen : s'.seen = (s.await env).seen) : Serializes env step [e] s s' :=
  (await s).trans (single h hseen)

end Serializes

end Lib
