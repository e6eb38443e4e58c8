import KChat.Storage.Provider

/-!
# The two storage providers agree

* `SameStore`: two sessions with the same tables.
* `tracks_pooled`, `tracks_inTx`, `tracks_transaction`: where a statement succeeds, the statement in
  a transaction that nothing disturbs does the same.
* **`SqliteStorageProvider.tracks`**, **`TransactionalStorageProvider.tracks`**: so does every
  method. **`providers_agree`**: so do sequences of methods.
-/

namespace KChat.Storage

open Lib

variable {C : Codec} {env : Surroundings} {α : Type}

/-- A session with empty tables. -/
def emptySession : Session where
  store := .empty
  beside := ()
  time := 0
  seen := 0

/-- The same tables. -/
def SameStore (s t : Session) : Prop := s.store = t.store

/-! ## Statements -/

theorem tracks_inTx (x : Statement α) : Tracks SameStore (inTx env x) (inTx .calm x) := by
  intro s t hst
  refine wp_inTx (fun _ _ => trivial) fun _ => ?_
  cases hx : x.run s.store with
  | error e db => exact (wp_of_error hx).mpr trivial
  | ok a db =>
    refine (wp_of_ok hx).mpr (wp_inTx (fun _ h => nomatch h) fun _ => ?_)
    rw [← show s.store = t.store from hst]
    exact (wp_of_ok hx).mpr ⟨rfl, rfl⟩

theorem tracks_pooled (halone : ∀ t, env.others t = []) (x : Statement α) :
    Tracks SameStore (pooled env x) (inTx .calm x) := by
  intro s t hst
  rw [wp_pooled]
  exact tracks_inTx x _ t ((Session.await_store_of_alone halone s).trans hst)

theorem tracks_transaction (halone : ∀ t, env.others t = []) {x y : Action α}
    (h : Tracks SameStore x y) : Tracks SameStore (transaction env x) y := by
  intro s t hst
  rw [transaction, wp_unowned]
  refine wp_transaction (fun _ _ => trivial) fun _ => ?_
  rw [wp_onWorld]
  have hsame : SameStore (s.await env).tick t := (Session.await_store_of_alone halone s).trans hst
  exact wp_mono (h _ t hsame) (fun a s' hy => ⟨fun _ _ => trivial, fun _ => hy⟩)
    fun _ _ _ => trivial

/-! ## Methods -/

theorem tracks_replying {x y : Action α} (reply : α → Reply C) (h : Tracks SameStore x y) :
    Tracks SameStore (replying reply x) (replying reply y) :=
  h.bind fun a => .pure (reply a)

theorem tracks_storeAllInTx (groupId : C.Carrier .groupId) (messageSecrets : List (ℕ × Bytes)) :
    Tracks SameStore (StorableGroupEpochMessageSecrets.storeAllInTx env groupId messageSecrets)
      (StorableGroupEpochMessageSecrets.storeAllInTx .calm groupId messageSecrets) := by
  induction messageSecrets with
  | nil => exact .pure ()
  | cons entry messageSecrets ih => exact (tracks_inTx _).bind fun _ => ih

theorem tracks_replaceInTx (groupId : C.Carrier .groupId) (messageSecrets : List (ℕ × Bytes)) :
    Tracks SameStore (StorableGroupEpochMessageSecrets.replaceInTx env groupId messageSecrets)
      (StorableGroupEpochMessageSecrets.replaceInTx .calm groupId messageSecrets) :=
  (tracks_inTx _).bind fun _ => tracks_storeAllInTx groupId messageSecrets

/-- **A method on the pool** does what it does in a transaction. -/
theorem SqliteStorageProvider.tracks (halone : ∀ t, env.others t = []) (op : StorageOp C) :
    Tracks SameStore (SqliteStorageProvider.perform env op)
      (TransactionalStorageProvider.perform .calm op) := by
  cases op with
  | supportsEpochMessageSecrets => exact .pure (Reply.flag true)
  | replaceGroupEpochMessageSecrets groupId messageSecrets =>
    exact tracks_replying _ (tracks_transaction halone (tracks_replaceInTx groupId messageSecrets))
  | isGroupEpochMessageSecretsMigrated groupId =>
    exact tracks_replying _ ((tracks_pooled halone _).bind fun a => .pure !a)
  | encryptionEpochKeyPairs groupId epoch leafIndex =>
    exact tracks_replying _ ((tracks_pooled halone _).bind fun a => .pure (a.getD []))
  | _ => exact tracks_replying _ (tracks_pooled halone _)

/-- **A method in a transaction** does the same whatever the time. -/
theorem TransactionalStorageProvider.tracks (op : StorageOp C) :
    Tracks SameStore (TransactionalStorageProvider.perform env op)
      (TransactionalStorageProvider.perform .calm op) := by
  cases op with
  | supportsEpochMessageSecrets => exact .pure (Reply.flag true)
  | replaceGroupEpochMessageSecrets groupId messageSecrets =>
    exact tracks_replying _ (tracks_replaceInTx groupId messageSecrets)
  | isGroupEpochMessageSecretsMigrated groupId =>
    exact tracks_replying _ ((tracks_inTx _).bind fun a => .pure !a)
  | encryptionEpochKeyPairs groupId epoch leafIndex =>
    exact tracks_replying _ ((tracks_inTx _).bind fun a => .pure (a.getD []))
  | _ => exact tracks_replying _ (tracks_inTx _)

/-! ## Sequences -/

theorem tracks_performAll (ops : List (StorageOp C)) :
    Tracks SameStore (performAll (TransactionalStorageProvider.perform env) ops)
      (performAll (TransactionalStorageProvider.perform .calm) ops) :=
  Tracks.mapM TransactionalStorageProvider.tracks ops

/-- A sequence of methods that succeeds on the pool succeeds in a transaction that no failure
hits. -/
theorem transaction_of_pooled (halone : ∀ t, env.others t = []) {ops : List (StorageOp C)}
    {replies : List (Reply C)} {s s' t : Session} (hstart : s.store = t.store)
    (hpooled : (performAll (SqliteStorageProvider.perform env) ops).run s = .ok replies s') :
    ∃ t', (performAll (TransactionalStorageProvider.perform .calm) ops).run t = .ok replies t' ∧
      s'.store = t'.store :=
  (Tracks.mapM (SqliteStorageProvider.tracks halone) ops).of_run hstart hpooled

/-- **The same replies and the same tables** from a sequence of methods on the pool and from the
sequence in a transaction. -/
theorem providers_agree {env env' : Surroundings} (halone : ∀ t, env.others t = [])
    (halone' : ∀ t, env'.others t = []) {ops : List (StorageOp C)}
    {replies replies' : List (Reply C)} {s s' t t' : Session} (hstart : s.store = t.store)
    (hpooled : (performAll (SqliteStorageProvider.perform env) ops).run s = .ok replies s')
    (htransaction : (transaction env'
      (performAll (TransactionalStorageProvider.perform env') ops)).run t = .ok replies' t') :
    replies = replies' ∧ s'.store = t'.store := by
  obtain ⟨u, hu, hstore⟩ := transaction_of_pooled halone hstart hpooled
  obtain ⟨u', hu', hstore'⟩ :=
    (tracks_transaction halone' (tracks_performAll ops)).of_run rfl htransaction
  cases hu.symm.trans hu'
  exact ⟨rfl, hstore.trans hstore'.symm⟩

/-- A proposal is queued twice, then the references are read. -/
def queueTwice : List (StorageOp byteCodec) :=
  [.queueProposal 1 2 3, .queueProposal 1 2 4, .queuedProposalRefs 1]

theorem providers_agree_queueTwice : ∃ replies s t,
    (performAll (SqliteStorageProvider.perform .calm) queueTwice).run emptySession =
      .ok replies s ∧
    (transaction .calm (performAll (TransactionalStorageProvider.perform .calm) queueTwice)).run
      emptySession = .ok replies t ∧ s.store = t.store := by
  obtain ⟨replies, s, hpooled⟩ := exists_of_isOk (r := (performAll
    (SqliteStorageProvider.perform .calm) queueTwice).run emptySession) (by decide +kernel)
  obtain ⟨replies', t, htransaction⟩ := exists_of_isOk (r := (transaction .calm (performAll
    (TransactionalStorageProvider.perform .calm) queueTwice)).run emptySession) (by decide +kernel)
  obtain ⟨rfl, hstore⟩ := providers_agree (fun _ => rfl) (fun _ => rfl) rfl hpooled htransaction
  exact ⟨replies, s, t, hpooled, htransaction, hstore⟩

end KChat.Storage
