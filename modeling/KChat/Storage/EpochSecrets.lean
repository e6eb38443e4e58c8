import KChat.Storage.Agreement
import KChat.Storage.Migration

/-!
# The message secrets of past epochs

Rows are written, replaced, pruned and deleted, through the pool or in transactions. A reference map
says what the rows of each group are: secrets by epoch.

* `Epochs`: maps from epochs. `Epochs.put`, `Epochs.ofEntries`, `Epochs.window`.
* `SecretsOp`: the four operations. `SecretsOp.onPool`, `SecretsOp.inTransaction`: what the providers
  do. `SecretsOp.apply`: what they do to the reference map.
* `SecretsStep`, `performSteps`: operations on the pool and transactions, one after the other.
* `inTransaction_applies`, **`performSteps_applies`**, **`secrets_as_reference`**.
-/

namespace KChat.Storage

open Lib

/-! ## Maps from epochs -/

/-- A map from epochs. -/
abbrev Epochs (ε β : Type) : Type := ε → Option β

namespace Epochs

variable {ε β : Type} [LinearOrder ε]

/-- One epoch is set. -/
def put (m : Epochs ε β) (epoch : ε) (b : β) : Epochs ε β := Function.update m epoch (some b)

/-- The entries of a list; the last one of an epoch wins. -/
def ofEntries (entries : List (ε × β)) : Epochs ε β := lastEntry entries

/-- The epochs from one to another are kept. -/
def window (m : Epochs ε β) (keepFrom current : ε) : Epochs ε β :=
  fun epoch => if keepFrom ≤ epoch ∧ epoch ≤ current then m epoch else none

/-- Setting one epoch after the other leaves the entries, over what was there. -/
theorem foldl_put (entries : List (ε × β)) (m : Epochs ε β) :
    entries.foldl (fun m entry => m.put entry.1 entry.2) m =
      fun epoch => (ofEntries entries epoch).or (m epoch) :=
  foldl_update entries m

end Epochs

/-! ## Operations -/

section operations

variable {C : Codec} (env : Surroundings)

namespace SqliteStorageProvider

def upsertGroupEpochMessageSecrets (groupId : C.Carrier .groupId) (epoch : ℕ)
    (messageSecrets : Bytes) : Action Unit :=
  StorableGroupEpochMessageSecrets.store env groupId epoch messageSecrets

def replaceGroupEpochMessageSecrets (groupId : C.Carrier .groupId)
    (messageSecrets : List (ℕ × Bytes)) : Action Unit :=
  transaction env (StorableGroupEpochMessageSecrets.replaceInTx env groupId messageSecrets)

def deleteGroupEpochMessageSecrets (groupId : C.Carrier .groupId) : Action Unit :=
  StorableGroupEpochMessageSecrets.delete env groupId

def pruneGroupEpochMessageSecrets (groupId : C.Carrier .groupId)
    (keepFromEpoch currentEpoch : ℕ) : Action Unit :=
  StorableGroupEpochMessageSecrets.prune env groupId keepFromEpoch currentEpoch

end SqliteStorageProvider

namespace TransactionalStorageProvider

def upsertGroupEpochMessageSecrets (groupId : C.Carrier .groupId) (epoch : ℕ)
    (messageSecrets : Bytes) : Action Unit :=
  StorableGroupEpochMessageSecrets.storeInTx env groupId epoch messageSecrets

def replaceGroupEpochMessageSecrets (groupId : C.Carrier .groupId)
    (messageSecrets : List (ℕ × Bytes)) : Action Unit :=
  StorableGroupEpochMessageSecrets.replaceInTx env groupId messageSecrets

def deleteGroupEpochMessageSecrets (groupId : C.Carrier .groupId) : Action Unit :=
  StorableGroupEpochMessageSecrets.deleteInTx env groupId

def pruneGroupEpochMessageSecrets (groupId : C.Carrier .groupId)
    (keepFromEpoch currentEpoch : ℕ) : Action Unit :=
  StorableGroupEpochMessageSecrets.pruneInTx env groupId keepFromEpoch currentEpoch

end TransactionalStorageProvider

/-- **An operation** on the message secrets of the epochs of a group. -/
inductive SecretsOp (C : Codec)
  | upsert (groupId : C.Carrier .groupId) (epoch : ℕ) (messageSecrets : Bytes)
  | replace (groupId : C.Carrier .groupId) (messageSecrets : List (ℕ × Bytes))
  | prune (groupId : C.Carrier .groupId) (keepFromEpoch currentEpoch : ℕ)
  | delete (groupId : C.Carrier .groupId)

namespace SecretsOp

def onPool : SecretsOp C → Action Unit
  | .upsert groupId epoch messageSecrets =>
    SqliteStorageProvider.upsertGroupEpochMessageSecrets env groupId epoch messageSecrets
  | .replace groupId messageSecrets =>
    SqliteStorageProvider.replaceGroupEpochMessageSecrets env groupId messageSecrets
  | .prune groupId keepFromEpoch currentEpoch =>
    SqliteStorageProvider.pruneGroupEpochMessageSecrets env groupId keepFromEpoch currentEpoch
  | .delete groupId => SqliteStorageProvider.deleteGroupEpochMessageSecrets env groupId

def inTransaction : SecretsOp C → Action Unit
  | .upsert groupId epoch messageSecrets =>
    TransactionalStorageProvider.upsertGroupEpochMessageSecrets env groupId epoch messageSecrets
  | .replace groupId messageSecrets =>
    TransactionalStorageProvider.replaceGroupEpochMessageSecrets env groupId messageSecrets
  | .prune groupId keepFromEpoch currentEpoch =>
    TransactionalStorageProvider.pruneGroupEpochMessageSecrets env groupId keepFromEpoch currentEpoch
  | .delete groupId => TransactionalStorageProvider.deleteGroupEpochMessageSecrets env groupId

/-- The group. -/
def groupId : SecretsOp C → C.Carrier .groupId
  | .upsert groupId _ _ => groupId
  | .replace groupId _ => groupId
  | .prune groupId _ _ => groupId
  | .delete groupId => groupId

/-- The epochs that are bound to a statement. -/
def epochs : SecretsOp C → List ℕ
  | .upsert _ epoch _ => [epoch]
  | .replace _ messageSecrets => messageSecrets.map Prod.fst
  | .prune _ keepFromEpoch currentEpoch => [keepFromEpoch, currentEpoch]
  | .delete _ => []

/-- The group id has bytes, and the epochs fit into integers of the database. -/
def Fits (op : SecretsOp C) : Prop :=
  (∃ bytes, C.toVec op.groupId = .ok bytes) ∧ ∀ epoch ∈ op.epochs, epoch < 2 ^ 63

/-- What an operation does to the secrets of its group. -/
def applyEpochs (m : Epochs ℤ Bytes) : SecretsOp C → Epochs ℤ Bytes
  | .upsert _ epoch messageSecrets => m.put epoch messageSecrets
  | .replace _ messageSecrets => .ofEntries (messageSecrets.map fun entry => ((entry.1 : ℤ), entry.2))
  | .prune _ keepFromEpoch currentEpoch => m.window keepFromEpoch currentEpoch
  | .delete _ => fun _ => none

/-- **What an operation does to the reference map**, whose groups are given by the bytes of their
ids. -/
def apply (m : Bytes → Epochs ℤ Bytes) (op : SecretsOp C) : Bytes → Epochs ℤ Bytes :=
  match C.toVec op.groupId with
  | .ok bytes => Function.update m bytes (op.applyEpochs (m bytes))
  | .error _ => m

end SecretsOp

/-- **A step**: an operation on the pool, or some in a transaction. -/
inductive SecretsStep (C : Codec)
  | pool (op : SecretsOp C)
  | transaction (ops : List (SecretsOp C))

namespace SecretsStep

def ops : SecretsStep C → List (SecretsOp C)
  | .pool op => [op]
  | .transaction ops => ops

def perform : SecretsStep C → Action Unit
  | .pool op => op.onPool env
  | .transaction ops => KChat.Storage.transaction env (ops.forM fun op => op.inTransaction env)

end SecretsStep

/-- Steps one after the other, whatever fails, and the operations of those that did not fail. -/
def performSteps : List (SecretsStep C) → Session → List (SecretsOp C) × Session
  | [], s => ([], s)
  | step :: steps, s =>
    match (step.perform env).run s with
    | .ok _ s =>
      let r := performSteps steps s
      (step.ops ++ r.1, r.2)
    | .error _ s => performSteps steps s

end operations

/-! ## Rows -/

/-- **The rows of a group**: epochs and secrets. -/
def secretRows (db : Database) (groupId : Bytes) : Set (ℤ × Bytes) :=
  {p | ∃ row ∈ db.groupEpochMessageSecrets.rows, row.providerVersion = storageProviderVersion ∧
    row.groupId = groupId ∧ (row.epoch, row.messageSecrets) = p}

/-- The rows are the graph of the secrets by epoch. -/
theorem mem_secretRows {db : Database} {groupId : Bytes} {p : ℤ × Bytes} :
    p ∈ secretRows db groupId ↔ epochSecrets db groupId p.1 = some p.2 := by
  obtain ⟨epoch, secrets⟩ := p
  rw [epochSecrets, Option.map_eq_some_iff]
  simp only [Table.get_eq_some_iff, MessageSecretsRow.key, Prod.mk.injEq]
  constructor
  · rintro ⟨row, hrow, hversion, hid, hp⟩
    obtain ⟨rfl, rfl⟩ := Prod.mk.inj hp
    exact ⟨row, ⟨hrow, hversion, hid, rfl⟩, rfl⟩
  · rintro ⟨row, ⟨hrow, hversion, hid, rfl⟩, rfl⟩
    exact ⟨row, hrow, hversion, hid, rfl⟩

section statements

variable {db : Database} {groupId : Bytes}

theorem epochSecrets_of_ne {db' : Database} (h : ∀ k : ℕ × Bytes × ℤ, k.2.1 ≠ groupId →
      db'.groupEpochMessageSecrets.get k = db.groupEpochMessageSecrets.get k)
    {m : Epochs ℤ Bytes} (hm : epochSecrets db' groupId = m) :
    epochSecrets db' = Function.update (epochSecrets db) groupId m := by
  funext other
  by_cases hother : other = groupId
  · subst hother
    rw [Function.update_self, hm]
  · rw [Function.update_of_ne hother]
    funext epoch
    unfold epochSecrets
    rw [h _ hother]

/-- A row is written. -/
theorem epochSecrets_upsert (epoch : ℤ) (messageSecrets : Bytes) :
    epochSecrets { db with
      groupEpochMessageSecrets := db.groupEpochMessageSecrets.upsert (fun _ => true)
        { providerVersion := storageProviderVersion, groupId, epoch, messageSecrets } } =
    Function.update (epochSecrets db) groupId
      (Epochs.put (epochSecrets db groupId) epoch messageSecrets) := by
  refine epochSecrets_of_ne (fun k hk => ?_) (funext fun e => ?_)
  · refine Table.get_upsert_of_ne fun hkey => hk ?_
    rw [hkey]
    rfl
  · by_cases he : e = epoch
    · subst he
      rw [Epochs.put, Function.update_self]
      exact congrArg (Option.map _) (Table.get_upsert_self fun _ _ => rfl)
    · rw [Epochs.put, Function.update_of_ne he]
      refine congrArg (Option.map _) (Table.get_upsert_of_ne fun hkey => he ?_)
      exact congrArg (fun k => k.2.2) hkey

/-- Rows of the group are deleted. -/
theorem epochSecrets_deleteWhere (groupId : Bytes) {q : MessageSecretsRow → Bool} {p : ℤ → Prop}
    [DecidablePred p] (hq : ∀ row, q row = true ↔
      row.providerVersion = storageProviderVersion ∧ row.groupId = groupId ∧ p row.epoch) :
    epochSecrets { db with
      groupEpochMessageSecrets := db.groupEpochMessageSecrets.deleteWhere q } =
    Function.update (epochSecrets db) groupId
      fun epoch => if p epoch then none else epochSecrets db groupId epoch := by
  refine epochSecrets_of_ne (fun k hk => ?_) (funext fun e => ?_)
  · refine Table.get_deleteWhere_of_kept fun row hrow => ?_
    have hid : row.groupId ≠ groupId := fun h => hk ((congrArg (fun k => k.2.1) hrow).symm.trans h)
    rw [← Bool.not_eq_true, hq]
    exact fun h => hid h.2.1
  · unfold epochSecrets
    by_cases hp : p e
    · have hgone := Table.get_deleteWhere_of_gone (t := db.groupEpochMessageSecrets) (p := q)
        (k := (storageProviderVersion, groupId, e)) fun row hrow => (hq row).mpr
          ⟨congrArg Prod.fst hrow, congrArg (fun k => k.2.1) hrow,
            (congrArg (fun k => k.2.2) hrow : row.epoch = e) ▸ hp⟩
      rw [if_pos hp]
      exact congrArg (Option.map _) hgone
    · have hkept := Table.get_deleteWhere_of_kept (t := db.groupEpochMessageSecrets) (p := q)
        (k := (storageProviderVersion, groupId, e)) fun row hrow => by
          rw [← Bool.not_eq_true, hq]
          exact fun h => hp ((congrArg (fun k => k.2.2) hrow : row.epoch = e) ▸ h.2.2)
      rw [if_neg hp]
      exact congrArg (Option.map _) hkept

end statements

/-! ## One operation -/

section one

variable {C : Codec} {env : Surroundings} {id : C.Carrier .groupId}

theorem SecretsOp.apply_of_ok (op : SecretsOp C) {bytes : Bytes} (h : C.toVec op.groupId = .ok bytes)
    (m : Bytes → Epochs ℤ Bytes) :
    op.apply m = Function.update m bytes (op.applyEpochs (m bytes)) := by
  unfold SecretsOp.apply
  rw [h]

/-- **Step lemma** for one epoch. An error leaves the tables alone. -/
theorem storeInTx_applies (epoch : ℕ) (messageSecrets : Bytes) (s : Session) :
    wp (StorableGroupEpochMessageSecrets.storeInTx env id epoch messageSecrets) s
      (fun _ t => epochSecrets t.store =
          (SecretsOp.upsert id epoch messageSecrets).apply (epochSecrets s.store) ∧ epoch < 2 ^ 63)
      fun _ t => t.store = s.store := by
  refine wp_inTx (fun _ _ => rfl) fun _ => ?_
  rw [wp_bind]
  refine wp_ofResult (fun bytes hbytes => ?_) fun _ _ => rfl
  rw [wp_bind]
  refine wp_ofResult (fun z hz => ?_) fun _ _ => rfl
  obtain rfl := u64ToSql_eq_ok hz
  have hlt : epoch < 2 ^ 63 := by
    unfold u64ToSql at hz
    by_contra hnot
    rw [if_neg hnot] at hz
    cases hz
  rw [execute, wp_modify]
  refine ⟨?_, hlt⟩
  rw [SecretsOp.apply_of_ok (.upsert id epoch messageSecrets) hbytes]
  exact epochSecrets_upsert _ _

theorem deleteInTx_applies (s : Session) :
    wp (StorableGroupEpochMessageSecrets.deleteInTx env id) s
      (fun _ t => epochSecrets t.store = (SecretsOp.delete id).apply (epochSecrets s.store) ∧
        ∃ bytes, C.toVec id = .ok bytes)
      fun _ t => t.store = s.store := by
  refine wp_inTx (fun _ _ => rfl) fun _ => ?_
  rw [wp_bind]
  refine wp_ofResult (fun bytes hbytes => ?_) fun _ _ => rfl
  rw [execute, wp_modify]
  refine ⟨?_, bytes, hbytes⟩
  rw [SecretsOp.apply_of_ok (.delete id) hbytes]
  refine (epochSecrets_deleteWhere bytes (p := fun _ => True) fun row => ?_).trans ?_
  · rw [decide_eq_true_iff, and_true]
  · simp only [if_true]
    rfl

theorem pruneInTx_applies (keepFromEpoch currentEpoch : ℕ) (s : Session) :
    wp (StorableGroupEpochMessageSecrets.pruneInTx env id keepFromEpoch currentEpoch) s
      (fun _ t => epochSecrets t.store =
        (SecretsOp.prune id keepFromEpoch currentEpoch).apply (epochSecrets s.store))
      fun _ t => t.store = s.store := by
  refine wp_inTx (fun _ _ => rfl) fun _ => ?_
  rw [wp_bind]
  refine wp_ofResult (fun bytes hbytes => ?_) fun _ _ => rfl
  rw [wp_bind]
  refine wp_ofResult (fun keepFrom hkeepFrom => ?_) fun _ _ => rfl
  rw [wp_bind]
  refine wp_ofResult (fun current hcurrent => ?_) fun _ _ => rfl
  obtain rfl := u64ToSql_eq_ok hkeepFrom
  obtain rfl := u64ToSql_eq_ok hcurrent
  rw [execute, wp_modify, SecretsOp.apply_of_ok (.prune id keepFromEpoch currentEpoch) hbytes]
  refine (epochSecrets_deleteWhere bytes
    (p := fun e => e < (keepFromEpoch : ℤ) ∨ (currentEpoch : ℤ) < e) fun row => ?_).trans ?_
  · rw [decide_eq_true_iff]
  · congr 1
    funext e
    show _ = if (keepFromEpoch : ℤ) ≤ e ∧ e ≤ (currentEpoch : ℤ) then
      epochSecrets s.store bytes e else none
    by_cases he : e < (keepFromEpoch : ℤ) ∨ (currentEpoch : ℤ) < e
    · rw [if_pos he, if_neg (by omega)]
    · rw [if_neg he, if_pos (by omega)]

/-- One after the other is stored. -/
theorem storeAllInTx_applies {bytes : Bytes} (hbytes : C.toVec id = .ok bytes)
    (messageSecrets : List (ℕ × Bytes)) (s : Session) :
    wp (StorableGroupEpochMessageSecrets.storeAllInTx env id messageSecrets) s
      (fun _ t => epochSecrets t.store = Function.update (epochSecrets s.store) bytes
          ((messageSecrets.map fun entry => ((entry.1 : ℤ), entry.2)).foldl
            (fun m entry => Epochs.put m entry.1 entry.2) (epochSecrets s.store bytes)) ∧
        ∀ entry ∈ messageSecrets, entry.1 < 2 ^ 63)
      fun _ _ => True := by
  induction messageSecrets generalizing s with
  | nil =>
    refine ⟨?_, fun _ h => by cases h⟩
    exact (Function.update_eq_self bytes (epochSecrets s.store)).symm
  | cons entry messageSecrets ih =>
    rw [StorableGroupEpochMessageSecrets.storeAllInTx, wp_bind]
    refine wp_mono (storeInTx_applies entry.1 entry.2 s) ?_ fun _ _ _ => trivial
    rintro _ t ⟨ht, hlt⟩
    refine wp_mono (ih t) ?_ fun _ _ _ => trivial
    rintro _ u ⟨hu, hrest⟩
    constructor
    · rw [SecretsOp.apply_of_ok (.upsert id entry.1 entry.2) hbytes] at ht
      rw [hu, ht, Function.update_idem, Function.update_self]
      rfl
    · intro other hother
      rcases List.mem_cons.mp hother with rfl | hother
      · exact hlt
      · exact hrest other hother

/-- **A replacement**: nothing is left of the old secrets. -/
theorem replaceInTx_applies (messageSecrets : List (ℕ × Bytes)) (s : Session) :
    wp (StorableGroupEpochMessageSecrets.replaceInTx env id messageSecrets) s
      (fun _ t => epochSecrets t.store =
          (SecretsOp.replace id messageSecrets).apply (epochSecrets s.store) ∧
        ∀ entry ∈ messageSecrets, entry.1 < 2 ^ 63)
      fun _ _ => True := by
  rw [StorableGroupEpochMessageSecrets.replaceInTx, wp_bind]
  refine wp_mono (deleteInTx_applies s) ?_ fun _ _ _ => trivial
  rintro _ t ⟨ht, bytes, hbytes⟩
  refine wp_mono (storeAllInTx_applies hbytes messageSecrets t) ?_ fun _ _ _ => trivial
  rintro _ u ⟨hu, hlt⟩
  refine ⟨?_, hlt⟩
  rw [SecretsOp.apply_of_ok (.delete id) hbytes] at ht
  rw [SecretsOp.apply_of_ok (.replace id messageSecrets) hbytes, hu, ht, Function.update_idem,
    Function.update_self, Epochs.foldl_put]
  congr 1
  funext epoch
  exact Option.or_none

/-- **Step lemma** for an operation in a transaction. -/
theorem inTransaction_applies (op : SecretsOp C) (s : Session) :
    wp (op.inTransaction env) s
      (fun _ t => epochSecrets t.store = op.apply (epochSecrets s.store)) fun _ _ => True := by
  cases op with
  | upsert groupId epoch messageSecrets =>
    exact wp_mono (storeInTx_applies epoch messageSecrets s) (fun _ _ h => h.1) fun _ _ _ => trivial
  | replace groupId messageSecrets =>
    exact wp_mono (replaceInTx_applies messageSecrets s) (fun _ _ h => h.1) fun _ _ _ => trivial
  | prune groupId keepFromEpoch currentEpoch =>
    exact wp_mono (pruneInTx_applies keepFromEpoch currentEpoch s) (fun _ _ h => h)
      fun _ _ _ => trivial
  | delete groupId =>
    exact wp_mono (deleteInTx_applies s) (fun _ _ h => h.1) fun _ _ _ => trivial

theorem forM_applies (ops : List (SecretsOp C)) (s : Session) :
    wp (ops.forM fun op => op.inTransaction env) s
      (fun _ t => epochSecrets t.store =
        ops.foldl (fun m op => op.apply m) (epochSecrets s.store)) fun _ _ => True := by
  induction ops generalizing s with
  | nil => exact rfl
  | cons op ops ih =>
    show wp (op.inTransaction env >>= fun _ => ops.forM fun op => op.inTransaction env) s _ _
    rw [wp_bind]
    refine wp_mono (inTransaction_applies op s) (fun _ t ht => ?_) fun _ _ _ => trivial
    refine wp_mono (ih t) (fun _ u hu => ?_) fun _ _ _ => trivial
    rw [hu, ht, List.foldl_cons]

end one

/-! ## Sequences -/

section sequences

variable {C : Codec} {env : Surroundings}

/-- Other writers leave the table alone. -/
def KeepsSecrets (env : Surroundings) : Prop := ∀ t, ∀ f ∈ env.others t, ∀ db,
  (f db).groupEpochMessageSecrets = db.groupEpochMessageSecrets

theorem KeepsSecrets.await (henv : KeepsSecrets env) (s : Session) :
    epochSecrets (s.await env).store = epochSecrets s.store := by
  have hfold : ∀ (fs : List (Database → Database)) (db : Database),
      (∀ f ∈ fs, ∀ db, (f db).groupEpochMessageSecrets = db.groupEpochMessageSecrets) →
      (fs.foldl (fun db f => f db) db).groupEpochMessageSecrets = db.groupEpochMessageSecrets := by
    intro fs
    induction fs with
    | nil => exact fun _ _ => rfl
    | cons f fs ih =>
      intro db hfs
      rw [List.foldl_cons, ih _ fun g hg => hfs g (List.mem_cons_of_mem _ hg)]
      exact hfs f List.mem_cons_self db
  have htable : (s.await env).store.groupEpochMessageSecrets = s.store.groupEpochMessageSecrets :=
    hfold _ _ fun f hf => by
      obtain ⟨t, -, hft⟩ := List.mem_flatMap.mp hf
      exact henv t f hft
  funext groupId epoch
  unfold epochSecrets
  rw [htable]

variable (henv : KeepsSecrets env)
include henv

/-- A transaction applies what its computation does, or nothing. -/
theorem transaction_applies {x : Action Unit}
    (f : (Bytes → Epochs ℤ Bytes) → Bytes → Epochs ℤ Bytes)
    (hx : ∀ s, wp x s (fun _ t => epochSecrets t.store = f (epochSecrets s.store)) fun _ _ => True)
    (s : Session) : wp (transaction env x) s
      (fun _ t => epochSecrets t.store = f (epochSecrets s.store))
      fun _ t => epochSecrets t.store = epochSecrets s.store := by
  rw [transaction, wp_unowned]
  refine wp_transaction (fun _ _ => henv.await s) fun _ => ?_
  rw [wp_onWorld]
  refine wp_mono (hx (s.await env).tick) (fun _ t ht => ⟨fun _ _ => henv.await s, fun _ => ?_⟩)
    fun _ _ _ => henv.await s
  rw [← henv.await s]
  exact ht

/-- **Step lemma**: a step applies its operations, or it fails and nothing changes. -/
theorem SecretsStep.perform_applies (step : SecretsStep C) (s : Session) :
    wp (step.perform env) s
      (fun _ t => epochSecrets t.store =
        step.ops.foldl (fun m op => op.apply m) (epochSecrets s.store))
      fun _ t => epochSecrets t.store = epochSecrets s.store := by
  have herror : ∀ {t : Session}, t.store = (s.await env).store →
      epochSecrets t.store = epochSecrets s.store := by
    intro t ht
    rw [ht, henv.await s]
  cases step with
  | transaction ops =>
    exact transaction_applies henv (fun m => ops.foldl (fun m op => op.apply m) m)
      (forM_applies ops) s
  | pool op =>
    cases op with
    | replace groupId messageSecrets =>
      exact transaction_applies henv (fun m => (SecretsOp.replace groupId messageSecrets).apply m)
        (inTransaction_applies (.replace groupId messageSecrets)) s
    | upsert groupId epoch messageSecrets =>
      refine wp_pooled.mpr (wp_mono (storeInTx_applies epoch messageSecrets (s.await env))
        (fun _ t ht => ?_) fun _ _ => herror)
      rw [ht.1, henv.await s]
      rfl
    | prune groupId keepFromEpoch currentEpoch =>
      refine wp_pooled.mpr (wp_mono (pruneInTx_applies keepFromEpoch currentEpoch (s.await env))
        (fun _ t ht => ?_) fun _ _ => herror)
      rw [ht, henv.await s]
      rfl
    | delete groupId =>
      refine wp_pooled.mpr (wp_mono (deleteInTx_applies (s.await env))
        (fun _ t ht => ?_) fun _ _ => herror)
      rw [ht.1, henv.await s]
      rfl

omit henv in
/-- What is replaced on the pool fits. -/
theorem replace_fits (id : C.Carrier .groupId) (messageSecrets : List (ℕ × Bytes)) (s : Session) :
    wp (SqliteStorageProvider.replaceGroupEpochMessageSecrets env id messageSecrets) s
      (fun _ _ => ∀ entry ∈ messageSecrets, entry.1 < 2 ^ 63) fun _ _ => True := by
  rw [SqliteStorageProvider.replaceGroupEpochMessageSecrets, transaction, wp_unowned]
  refine wp_transaction (fun _ _ => trivial) fun _ => ?_
  rw [wp_onWorld]
  exact wp_mono (replaceInTx_applies messageSecrets (s.await env).tick)
    (fun _ _ h => ⟨fun _ _ => trivial, fun _ => h.2⟩) fun _ _ _ => trivial

/-- **Run lemma**: the tables hold what the operations that did not fail lead to. -/
theorem performSteps_applies (steps : List (SecretsStep C)) (s : Session) :
    epochSecrets (performSteps env steps s).2.store =
      (performSteps env steps s).1.foldl (fun m op => op.apply m) (epochSecrets s.store) := by
  induction steps generalizing s with
  | nil => rfl
  | cons step steps ih =>
    have hstep := step.perform_applies henv s
    rw [performSteps]
    cases hrun : (step.perform env).run s with
    | ok a t =>
      have ht := (wp_of_ok hrun).mp hstep
      dsimp only
      rw [ih, List.foldl_append, ht]
    | error e t =>
      have ht := (wp_of_error hrun).mp hstep
      dsimp only
      rw [ih, ht]

end sequences

/-! ## Steps that do not fail -/

section total

variable {C : Codec} {env : Surroundings} (hcalm : ∀ t, env.fault t = none)
include hcalm

/-- A statement that no failure hits. -/
theorem wp_inTx_of_calm {α : Type} {x : Statement α} {s : Session}
    (hx : ∀ db, wp x db (fun _ _ => True) fun _ _ => False) :
    wp (inTx env x) s (fun _ _ => True) fun _ _ => False := by
  refine wp_inTx (fun e he => ?_) fun _ => hx s.store
  rw [hcalm] at he
  cases he

omit hcalm in
theorem wp_bind_ofResult {α β : Type} {r : Except String α} {a : α} (hr : r = .ok a)
    {f : α → Statement β} {db : Database}
    (hf : wp (f a) db (fun _ _ => True) fun _ _ => False) :
    wp (ofResult r >>= f) db (fun _ _ => True) fun _ _ => False := by
  subst hr
  exact hf

omit hcalm in
theorem u64ToSql_of_lt {n : ℕ} (h : n < 2 ^ 63) : u64ToSql n = .ok n := if_pos h

theorem storeInTx_fits {id : C.Carrier .groupId} {bytes : Bytes} (hbytes : C.toVec id = .ok bytes)
    {epoch : ℕ} (hlt : epoch < 2 ^ 63) (messageSecrets : Bytes) (s : Session) :
    wp (StorableGroupEpochMessageSecrets.storeInTx env id epoch messageSecrets) s
      (fun _ _ => True) fun _ _ => False :=
  wp_inTx_of_calm hcalm fun _ =>
    wp_bind_ofResult hbytes (wp_bind_ofResult (u64ToSql_of_lt hlt) trivial)

theorem deleteInTx_fits {id : C.Carrier .groupId} {bytes : Bytes} (hbytes : C.toVec id = .ok bytes)
    (s : Session) : wp (StorableGroupEpochMessageSecrets.deleteInTx env id) s
      (fun _ _ => True) fun _ _ => False :=
  wp_inTx_of_calm hcalm fun _ => wp_bind_ofResult hbytes trivial

theorem pruneInTx_fits {id : C.Carrier .groupId} {bytes : Bytes} (hbytes : C.toVec id = .ok bytes)
    {keepFromEpoch currentEpoch : ℕ} (hkeep : keepFromEpoch < 2 ^ 63) (hcurrent : currentEpoch < 2 ^ 63)
    (s : Session) :
    wp (StorableGroupEpochMessageSecrets.pruneInTx env id keepFromEpoch currentEpoch) s
      (fun _ _ => True) fun _ _ => False :=
  wp_inTx_of_calm hcalm fun _ => wp_bind_ofResult hbytes
    (wp_bind_ofResult (u64ToSql_of_lt hkeep) (wp_bind_ofResult (u64ToSql_of_lt hcurrent) trivial))

theorem storeAllInTx_fits {id : C.Carrier .groupId} {bytes : Bytes}
    (hbytes : C.toVec id = .ok bytes) {messageSecrets : List (ℕ × Bytes)}
    (hlt : ∀ epoch ∈ messageSecrets.map Prod.fst, epoch < 2 ^ 63) (s : Session) :
    wp (StorableGroupEpochMessageSecrets.storeAllInTx env id messageSecrets) s
      (fun _ _ => True) fun _ _ => False := by
  induction messageSecrets generalizing s with
  | nil => exact trivial
  | cons entry messageSecrets ih =>
    have hfirst : entry.1 < 2 ^ 63 := hlt entry.1 List.mem_cons_self
    rw [StorableGroupEpochMessageSecrets.storeAllInTx, wp_bind]
    refine wp_mono (storeInTx_fits hcalm hbytes hfirst entry.2 s) (fun _ t _ => ?_) fun _ _ h => h
    exact ih (fun epoch h => hlt epoch (List.mem_cons_of_mem _ h)) t

/-- An operation that fits does not fail. -/
theorem inTransaction_fits {op : SecretsOp C} (hfits : op.Fits) (s : Session) :
    wp (op.inTransaction env) s (fun _ _ => True) fun _ _ => False := by
  obtain ⟨⟨bytes, hbytes⟩, hepochs⟩ := hfits
  cases op with
  | upsert groupId epoch messageSecrets =>
    exact storeInTx_fits hcalm hbytes (hepochs epoch List.mem_cons_self) messageSecrets s
  | delete groupId => exact deleteInTx_fits hcalm hbytes s
  | prune groupId keepFromEpoch currentEpoch =>
    exact pruneInTx_fits hcalm hbytes (hepochs _ List.mem_cons_self)
      (hepochs _ (List.mem_cons_of_mem _ List.mem_cons_self)) s
  | replace groupId messageSecrets =>
    show wp (StorableGroupEpochMessageSecrets.replaceInTx env groupId messageSecrets) s _ _
    rw [StorableGroupEpochMessageSecrets.replaceInTx, wp_bind]
    refine wp_mono (deleteInTx_fits hcalm hbytes s) (fun _ t _ => ?_) fun _ _ h => h
    exact storeAllInTx_fits hcalm hbytes hepochs t

theorem transaction_of_calm {x : Action Unit}
    (hx : ∀ s, wp x s (fun _ _ => True) fun _ _ => False) (s : Session) :
    wp (transaction env x) s (fun _ _ => True) fun _ _ => False := by
  rw [transaction, wp_unowned]
  exact wp_transaction_calm hcalm (wp_onWorld.mpr (hx _))

theorem SecretsStep.perform_calm {step : SecretsStep C} (hfits : ∀ op ∈ step.ops, op.Fits)
    (s : Session) : wp (step.perform env) s (fun _ _ => True) fun _ _ => False := by
  cases step with
  | transaction ops =>
    refine transaction_of_calm hcalm (fun s => ?_) s
    change ∀ op ∈ ops, op.Fits at hfits
    induction ops generalizing s with
    | nil => exact trivial
    | cons op ops ih =>
      show wp (op.inTransaction env >>= fun _ => ops.forM fun op => op.inTransaction env) s _ _
      rw [wp_bind]
      refine wp_mono (inTransaction_fits hcalm (hfits op List.mem_cons_self) s) (fun _ t _ => ?_)
        fun _ _ h => h
      exact ih t fun op h => hfits op (List.mem_cons_of_mem _ h)
  | pool op =>
    have hop : op.Fits := hfits op List.mem_cons_self
    have hin : ∀ s, wp (op.inTransaction env) s (fun _ _ => True) fun _ _ => False :=
      inTransaction_fits hcalm hop
    cases op with
    | replace groupId messageSecrets => exact transaction_of_calm hcalm hin s
    | upsert groupId epoch messageSecrets => exact wp_pooled.mpr (hin (s.await env))
    | prune groupId keepFromEpoch currentEpoch => exact wp_pooled.mpr (hin (s.await env))
    | delete groupId => exact wp_pooled.mpr (hin (s.await env))

/-- Without failures all steps are performed whose operations fit. -/
theorem performSteps_calm {steps : List (SecretsStep C)}
    (hfits : ∀ step ∈ steps, ∀ op ∈ step.ops, op.Fits) (s : Session) :
    (performSteps env steps s).1 = steps.flatMap SecretsStep.ops := by
  induction steps generalizing s with
  | nil => rfl
  | cons step steps ih =>
    obtain ⟨a, t, hrun, -⟩ := exists_run_of_wp
      (SecretsStep.perform_calm hcalm (hfits step List.mem_cons_self) s)
    have hrest := ih (fun step h => hfits step (List.mem_cons_of_mem _ h)) t
    rw [performSteps, hrun, List.flatMap_cons, ← hrest]

end total

/-! ## The reference map -/

/-- **The secrets of past epochs**: after any steps the rows of every group are those of the
reference map of the operations that did not fail; none does that fits, unless the database fails. A
replacement on the pool that fails leaves all rows, and it fails if an epoch does not fit. -/
theorem secrets_as_reference {C : Codec} {env : Surroundings} (henv : KeepsSecrets env)
    (steps : List (SecretsStep C)) (s : Session) :
    (∀ groupId, secretRows (performSteps env steps s).2.store groupId =
      {p | (performSteps env steps s).1.foldl (fun m op => op.apply m) (epochSecrets s.store)
        groupId p.1 = some p.2}) ∧
    ((∀ t, env.fault t = none) → (∀ step ∈ steps, ∀ op ∈ step.ops, op.Fits) →
      (performSteps env steps s).1 = steps.flatMap SecretsStep.ops) ∧
    ∀ (id : C.Carrier .groupId) (messageSecrets : List (ℕ × Bytes)),
      (∀ e t, (SqliteStorageProvider.replaceGroupEpochMessageSecrets env id messageSecrets).run s =
        .error e t → ∀ groupId, secretRows t.store groupId = secretRows s.store groupId) ∧
      ((∃ entry ∈ messageSecrets, 2 ^ 63 ≤ entry.1) → ∃ e t,
        (SqliteStorageProvider.replaceGroupEpochMessageSecrets env id messageSecrets).run s =
          .error e t) := by
  refine ⟨fun groupId => ?_, fun hcalm hfits => performSteps_calm hcalm hfits s,
    fun id messageSecrets => ⟨fun e t hrun groupId => ?_, ?_⟩⟩
  · ext p
    rw [mem_secretRows, performSteps_applies henv]
    rfl
  · have hsame := (wp_of_error hrun).mp
      (SecretsStep.perform_applies henv (.pool (.replace id messageSecrets)) s)
    ext p
    rw [mem_secretRows, mem_secretRows, hsame]
  · rintro ⟨entry, hentry, hlarge⟩
    cases hrun : (SqliteStorageProvider.replaceGroupEpochMessageSecrets env id messageSecrets).run s with
    | error e t => exact ⟨e, t, rfl⟩
    | ok a t =>
      have hfits := (wp_of_ok hrun).mp (replace_fits id messageSecrets s) entry hentry
      exact absurd hfits (Nat.not_lt.mpr hlarge)

/-- Steps on two groups; the last one fails, whose epoch does not fit. -/
def secretSteps : List (SecretsStep byteCodec) :=
  [.pool (.upsert 1 5 [9]), .transaction [.upsert 2 6 [8], .prune 1 6 7],
    .pool (.replace 1 [(3, [1]), (3, [2])]), .pool (.replace 1 [(4, [6]), (2 ^ 63, [7])])]

theorem secrets_as_reference_steps :
    (3, [2]) ∈ secretRows (performSteps .calm secretSteps emptySession).2.store [1] ∧
    (5, [9]) ∉ secretRows (performSteps .calm secretSteps emptySession).2.store [1] ∧
    (6, [8]) ∈ secretRows (performSteps .calm secretSteps emptySession).2.store [2] := by
  have hkeeps : KeepsSecrets .calm := fun _ _ h => nomatch h
  have hrows := (secrets_as_reference hkeeps secretSteps emptySession).1
  rw [hrows, hrows]
  decide +kernel

end KChat.Storage
