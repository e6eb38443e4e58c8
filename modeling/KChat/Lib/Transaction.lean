import KChat.Lib.Effect

/-!
# A store with transactions, other writers and failures

* `Surroundings`: what other writers commit at each moment, and when the store fails.
  `Surroundings.calm`: nothing of the kind ever happens.
* `call`: one use of the store, which may be hit by a failure; `autocommit`: one outside of a
  transaction.
* `transaction`: a computation on a snapshot, undone unless it succeeds and commits; the others wait
  for its end. What it owns is not undone. **`wp_transaction`**, **`wp_transaction_calm`**.
* `meanwhile`: the store with what the others committed and nothing else.
-/

namespace Lib

variable {δ χ φ ε ω α : Type}

/-- What happens around a session: `others t` is committed by others at moment `t`, and `fault t`
hits what is done at moment `t`. -/
structure Surroundings (δ φ : Type) where
  others : ℕ → List (δ → δ)
  fault : ℕ → Option φ

/-- No other writer, no failure. -/
def Surroundings.calm : Surroundings δ φ where
  others _ := []
  fault _ := none

variable {env : Surroundings δ φ}

/-- What others commit from one moment on and before another. -/
def Surroundings.between (env : Surroundings δ φ) (a b : ℕ) : List (δ → δ) :=
  (List.range' a (b - a)).flatMap env.others

/-- A store, what lies beside it, and the time. The store has what others committed before the
moment `seen`. -/
structure Session (δ χ : Type) where
  store : δ
  beside : χ
  time : ℕ
  seen : ℕ

namespace Session

/-- One moment later. -/
def tick (s : Session δ χ) : Session δ χ := { s with time := s.time + 1 }

/-- What others did meanwhile is still to come. -/
def commit (s snapshot : Session δ χ) : Session δ χ :=
  { s with seen := snapshot.seen }

/-- The store goes back to what it was. -/
def rollback (s snapshot : Session δ χ) : Session δ χ :=
  { s with store := snapshot.store, seen := snapshot.seen }

/-- The others commit. -/
def await (env : Surroundings δ φ) (s : Session δ χ) : Session δ χ :=
  { s with
    store := (env.between s.seen (s.time + 1)).foldl (fun store f => f store) s.store
    seen := max s.seen (s.time + 1) }

@[simp] theorem tick_store (s : Session δ χ) : s.tick.store = s.store := rfl

@[simp] theorem tick_beside (s : Session δ χ) : s.tick.beside = s.beside := rfl

@[simp] theorem tick_time (s : Session δ χ) : s.tick.time = s.time + 1 := rfl

@[simp] theorem tick_seen (s : Session δ χ) : s.tick.seen = s.seen := rfl

@[simp] theorem commit_store (s s₀ : Session δ χ) : (s.commit s₀).store = s.store := rfl

@[simp] theorem rollback_store (s s₀ : Session δ χ) : (s.rollback s₀).store = s₀.store := rfl

@[simp] theorem rollback_time (s s₀ : Session δ χ) : (s.rollback s₀).time = s.time := rfl

@[simp] theorem await_beside (s : Session δ χ) : (s.await env).beside = s.beside := rfl

@[simp] theorem await_time (s : Session δ χ) : (s.await env).time = s.time := rfl

@[simp] theorem await_seen (s : Session δ χ) : (s.await env).seen = max s.seen (s.time + 1) := rfl

/-- Without other writers waiting changes nothing. -/
theorem await_store_of_alone (h : ∀ t, env.others t = []) (s : Session δ χ) :
    (s.await env).store = s.store := by
  have hnone : env.between s.seen (s.time + 1) = [] := by
    rw [Surroundings.between, List.flatMap_eq_nil_iff]
    exact fun t _ => h t
  simp only [await, hnone, List.foldl_nil]

end Session

/-- What others commit up to a later moment. -/
theorem Surroundings.between_append {a b c : ℕ} (hab : a ≤ b) (hbc : b ≤ c) :
    env.between a b ++ env.between b c = env.between a c := by
  rw [Surroundings.between, Surroundings.between, Surroundings.between, ← List.flatMap_append]
  congr 1
  have hb : a + (b - a) = b := by omega
  have hc : b - a + (c - b) = c - a := by omega
  have h : List.range' a (b - a) ++ List.range' (a + (b - a)) (c - b) =
      List.range' a (b - a + (c - b)) := List.range'_append_1
  rwa [hb, hc] at h

/-- **The store with what others committed meanwhile**, and nothing else. -/
def meanwhile (env : Surroundings δ φ) (s t : Session δ χ) : δ :=
  (env.between s.seen t.seen).foldl (fun store f => f store) s.store

theorem await_store (s : Session δ χ) : (s.await env).store = meanwhile env s (s.await env) := by
  rw [meanwhile, Session.await_seen]
  rcases Nat.le_total s.seen (s.time + 1) with hle | hle
  · rw [Nat.max_eq_right hle]
    rfl
  · have hnone : env.between s.seen (s.time + 1) = [] := by
      rw [Surroundings.between, Nat.sub_eq_zero_of_le hle]
      rfl
    have hself : env.between s.seen s.seen = [] := by
      rw [Surroundings.between, Nat.sub_self]
      rfl
    rw [Nat.max_eq_left hle, hself, Session.await, hnone]

theorem meanwhile_self (s t : Session δ χ) (h : t.seen = s.seen) :
    meanwhile env s t = s.store := by
  rw [meanwhile, Surroundings.between, h, Nat.sub_self]
  rfl

theorem meanwhile_trans {s t u : Session δ χ} (hst : s.seen ≤ t.seen) (htu : t.seen ≤ u.seen)
    (h : t.store = meanwhile env s t) : meanwhile env t u = meanwhile env s u := by
  rw [meanwhile, h, meanwhile, ← List.foldl_append, Surroundings.between_append hst htu, meanwhile]

variable (env)

/-- One use of the store at the moment it is. -/
def call (op : Option φ → EStateM ε (Owning ω δ) α) : EStateM ε (Owning ω (Session δ χ)) α := fun s =>
  zoom (fun s => ⟨s.self, s.world.store⟩)
    (fun t s => ⟨t.self, { s.world with store := t.world }.tick⟩) (op (env.fault s.world.time)) s

/-- One use of the store that commits by itself. -/
def autocommit (op : Option φ → EStateM ε (Owning ω δ) α) : EStateM ε (Owning ω (Session δ χ)) α :=
  fun s => call env op ⟨s.self, s.world.await env⟩

/-- **A transaction** begins, runs on a snapshot and commits. Without a commit the store goes back
to the snapshot; the object the computation owns stays as the computation left it. -/
def transaction (toFault : ε → φ) (x : EStateM ε (Owning ω (Session δ χ)) α) :
    EStateM φ (Owning ω (Session δ χ)) α := fun s =>
  let snapshot := s.world.await env
  match env.fault s.world.time with
  | some e => .error e ⟨s.self, snapshot.tick⟩
  | none =>
    match x.run ⟨s.self, snapshot.tick⟩ with
    | .error e t => .error (toFault e) ⟨t.self, t.world.rollback snapshot⟩
    | .ok a t =>
      match env.fault t.world.time with
      | some e => .error e ⟨t.self, (t.world.rollback snapshot).tick⟩
      | none => .ok a ⟨t.self, (t.world.commit snapshot).tick⟩

/-- A computation that owns nothing. -/
def unowned (x : EStateM ε (Owning Unit (Session δ χ)) α) : EStateM ε (Session δ χ) α :=
  Prod.fst <$> withSelf () x

variable {env}

theorem wp_call {op : Option φ → EStateM ε (Owning ω δ) α} {s : Owning ω (Session δ χ)}
    {Q : α → Owning ω (Session δ χ) → Prop} {E : ε → Owning ω (Session δ χ) → Prop} :
    wp (call env op) s Q E ↔ wp (op (env.fault s.world.time)) ⟨s.self, s.world.store⟩
      (fun a t => Q a ⟨t.self, { s.world with store := t.world }.tick⟩)
      fun e t => E e ⟨t.self, { s.world with store := t.world }.tick⟩ :=
  wp_zoom

theorem wp_autocommit {op : Option φ → EStateM ε (Owning ω δ) α} {s : Owning ω (Session δ χ)}
    {Q : α → Owning ω (Session δ χ) → Prop} {E : ε → Owning ω (Session δ χ) → Prop} :
    wp (autocommit env op) s Q E ↔ wp (call env op) ⟨s.self, s.world.await env⟩ Q E := Iff.rfl

section transaction

variable {toFault : ε → φ} {x : EStateM ε (Owning ω (Session δ χ)) α}
  {s t : Owning ω (Session δ χ)} {Q : α → Owning ω (Session δ χ) → Prop}
  {E : φ → Owning ω (Session δ χ) → Prop}

theorem run_transaction_begin {e : φ} (h : env.fault s.world.time = some e) :
    (transaction env toFault x).run s = .error e ⟨s.self, (s.world.await env).tick⟩ := by
  change transaction env toFault x s = _
  simp only [transaction, h]

theorem run_transaction_error {e : ε} (h : env.fault s.world.time = none)
    (hx : x.run ⟨s.self, (s.world.await env).tick⟩ = .error e t) :
    (transaction env toFault x).run s =
      .error (toFault e) ⟨t.self, t.world.rollback (s.world.await env)⟩ := by
  change transaction env toFault x s = _
  simp only [transaction, h, hx]

theorem run_transaction_undone {a : α} {e : φ} (h : env.fault s.world.time = none)
    (hx : x.run ⟨s.self, (s.world.await env).tick⟩ = .ok a t)
    (hc : env.fault t.world.time = some e) : (transaction env toFault x).run s =
      .error e ⟨t.self, (t.world.rollback (s.world.await env)).tick⟩ := by
  change transaction env toFault x s = _
  simp only [transaction, h, hx, hc]

theorem run_transaction_ok {a : α} (h : env.fault s.world.time = none)
    (hx : x.run ⟨s.self, (s.world.await env).tick⟩ = .ok a t) (hc : env.fault t.world.time = none) :
    (transaction env toFault x).run s =
      .ok a ⟨t.self, (t.world.commit (s.world.await env)).tick⟩ := by
  change transaction env toFault x s = _
  simp only [transaction, h, hx, hc]

/-- **What a transaction does**, read off its computation. -/
theorem wp_transaction
    (hbegin : ∀ e, env.fault s.world.time = some e → E e ⟨s.self, (s.world.await env).tick⟩)
    (hbody : env.fault s.world.time = none → wp x ⟨s.self, (s.world.await env).tick⟩
      (fun a t =>
        (∀ e, env.fault t.world.time = some e →
          E e ⟨t.self, (t.world.rollback (s.world.await env)).tick⟩) ∧
        (env.fault t.world.time = none → Q a ⟨t.self, (t.world.commit (s.world.await env)).tick⟩))
      fun e t => E (toFault e) ⟨t.self, t.world.rollback (s.world.await env)⟩) :
    wp (transaction env toFault x) s Q E := by
  cases hf : env.fault s.world.time with
  | some e => exact (wp_of_error (run_transaction_begin hf)).mpr (hbegin e hf)
  | none =>
    have h := hbody hf
    cases hx : x.run ⟨s.self, (s.world.await env).tick⟩ with
    | error e t => exact (wp_of_error (run_transaction_error hf hx)).mpr ((wp_of_error hx).mp h)
    | ok a t =>
      obtain ⟨herr, hok⟩ := (wp_of_ok hx).mp h
      cases hc : env.fault t.world.time with
      | some e => exact (wp_of_error (run_transaction_undone hf hx hc)).mpr (herr e hc)
      | none => exact (wp_of_ok (run_transaction_ok hf hx hc)).mpr (hok hc)

/-- A transaction that no failure hits. -/
theorem wp_transaction_calm (hcalm : ∀ t, env.fault t = none)
    (h : wp x ⟨s.self, (s.world.await env).tick⟩
      (fun a t => Q a ⟨t.self, (t.world.commit (s.world.await env)).tick⟩)
      fun e t => E (toFault e) ⟨t.self, t.world.rollback (s.world.await env)⟩) :
    wp (transaction env toFault x) s Q E := by
  refine wp_transaction (fun e he => ?_) fun _ => ?_
  · rw [hcalm] at he
    cases he
  refine wp_mono h (fun a t ht => ⟨fun e he => ?_, fun _ => ht⟩) fun e t ht => ht
  rw [hcalm] at he
  cases he

/-- **A transaction that fails** leaves the store as the others left it. -/
theorem transaction_error : wp (transaction env toFault x) s (fun _ _ => True)
    fun _ t => t.world.store = (s.world.await env).store := by
  refine wp_transaction (fun _ _ => rfl) fun _ => ?_
  exact wp_mono (wp_true _ _) (fun _ _ _ => ⟨fun _ _ => rfl, fun _ => trivial⟩) fun _ _ _ => rfl

/-- While a transaction runs the others wait. -/
theorem transaction_seen : wp (transaction env toFault x) s
    (fun _ t => t.world.seen = (s.world.await env).seen)
    fun _ t => t.world.seen = (s.world.await env).seen := by
  refine wp_transaction (fun _ _ => rfl) fun _ => ?_
  exact wp_mono (wp_true _ _) (fun _ _ _ => ⟨fun _ _ => rfl, fun _ => rfl⟩) fun _ _ _ => rfl

end transaction

@[simp] theorem wp_unowned {x : EStateM ε (Owning Unit (Session δ χ)) α} {s : Session δ χ}
    {Q : α → Session δ χ → Prop} {E : ε → Session δ χ → Prop} : wp (unowned x) s Q E ↔
      wp x ⟨(), s⟩ (fun a t => Q a t.world) fun e t => E e t.world := by
  rw [unowned, map_eq_pure_bind, wp_bind, wp_withSelf]
  rfl

end Lib
