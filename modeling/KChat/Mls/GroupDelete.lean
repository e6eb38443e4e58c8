import KChat.Mls.Deletion

/-!
# Deleting a group by id, failure by failure

* `RusqliteError`: a failure of SQLite with its extended code; `sqliteErrorContext` keeps the code.
* `GroupDelete.deleteGroup`: a transaction of six deletions on a connection of the pool, and after a
  failure with primary code 1 or 11 once more on a fresh connection. The session counts the fresh
  connections.
* `deleteGroupById_spec`, `poolTransaction_spec`, `cleanup_spec`: what each part leaves, and which
  failure it was that hit first.
* **`deleteGroup_exact`**, **`not_every_version`**: rows of another provider version stay.
-/

namespace KChat.Mls

open Lib

open Storage (Codec Database)

/-! ## Failures -/

/-- A failure of SQLite, or another error of the library. -/
inductive RusqliteError
  | sqliteFailure (extendedCode : BitVec 32) (detail : Option String)
  | other (text : String)
  deriving DecidableEq

structure ErrorTexts where
  display : RusqliteError → String
  code : BitVec 32 → String
  debug : BitVec 32 → String
  checkout : RusqliteError → String

/-- Operation context for a failure of SQLite; its code stays. -/
def sqliteErrorContext (T : ErrorTexts) (error : RusqliteError) (context : String) :
    RusqliteError :=
  match error with
  | .sqliteFailure code detail =>
    let detail := detail.getD (T.code code)
    .sqliteFailure code (some (context ++ ": " ++ detail ++ " (" ++ T.debug code ++ ")"))
  | other => other

/-- The primary code is that of an SQL error or of a damaged database. -/
def RusqliteError.recoverable : RusqliteError → Bool
  | .sqliteFailure code _ => code &&& 0xff = 1 ∨ code &&& 0xff = 11
  | .other _ => false

theorem recoverable_sqliteErrorContext (T : ErrorTexts) (error : RusqliteError) (context : String) :
    (sqliteErrorContext T error context).recoverable = error.recoverable := by
  cases error <;> rfl

/-! ## The two attempts -/

namespace GroupDelete

/-- The tables with group-scoped rows, and what a deletion leaves of them. -/
def groupScoped : List (String × (Bytes → Database → Database)) :=
  [("openmls_group_data", fun groupId db =>
      { db with
        groupData := db.groupData.deleteWhere fun row =>
          row.providerVersion = Storage.storageProviderVersion ∧ row.groupId = groupId }),
   ("openmls_epoch_keys_pairs", fun groupId db =>
      { db with
        epochKeysPairs := db.epochKeysPairs.deleteWhere fun row =>
          row.providerVersion = Storage.storageProviderVersion ∧ row.groupId = groupId }),
   ("openmls_own_leaf_nodes", fun groupId db =>
      { db with
        ownLeafNodes := db.ownLeafNodes.filter fun row =>
          !decide (row.providerVersion = Storage.storageProviderVersion ∧ row.groupId = groupId) }),
   ("openmls_proposals", fun groupId db =>
      { db with
        proposals := db.proposals.deleteWhere fun row =>
          row.providerVersion = Storage.storageProviderVersion ∧ row.groupId = groupId }),
   ("openmls_group_epoch_message_secrets", fun groupId db =>
      { db with
        groupEpochMessageSecrets := db.groupEpochMessageSecrets.deleteWhere fun row =>
          row.providerVersion = Storage.storageProviderVersion ∧ row.groupId = groupId }),
   ("openmls_decrypted_application_messages", fun groupId db =>
      { db with
        decryptedApplicationMessages := db.decryptedApplicationMessages.deleteWhere fun row =>
          row.providerVersion = Storage.storageProviderVersion ∧ row.groupId = groupId })]

abbrev Session : Type := Lib.Session Database ℕ

abbrev Action (α : Type) : Type := EStateM RusqliteError (Owning Unit Session) α

variable {α : Type} (T : ErrorTexts) (C : Codec) (env : Lib.Surroundings Database RusqliteError)

def step : Action Unit :=
  Lib.call env fun
    | some e => throw e
    | none => return ()

/-- `DELETE ... WHERE provider_version = ?1 AND group_id = ?2`; the id is a parameter. -/
def execute (delete : Bytes → Database → Database) (groupId : C.Carrier .groupId) : Action Unit :=
  Lib.call env fun
    | some e => throw e
    | none => do
      let groupId ← ofResult ((C.toVec groupId).mapError .other)
      onWorld (modify (delete groupId))

/-- The rows of one table, with the table in the error. -/
def deleteFrom (groupId : C.Carrier .groupId) (table : String × (Bytes → Database → Database)) :
    Action Unit :=
  mapError (fun error => sqliteErrorContext T error ("delete_group MLS table " ++ table.1))
    (execute C env table.2 groupId)

def deleteGroupById (groupId : C.Carrier .groupId) : Action Unit :=
  groupScoped.forM (deleteFrom T C env groupId)

def checkout : Action Unit := mapError (fun error => .other (T.checkout error)) (step env)

/-- `SqliteConnectionPool::transaction`: connection, transaction, busy timeout, body, commit. -/
def poolTransaction (x : Action α) : Action α := do
  checkout T env
  Lib.transaction env id do
    step env
    x

def openFreshConnection : Action Unit := do
  modify fun s => { s with world := { s.world with beside := s.world.beside + 1 } }
  step env

def cleanup (groupId : C.Carrier .groupId) : Action Unit := do
  openFreshConnection env
  step env
  Lib.transaction env id (deleteGroupById T C env groupId)

def deleteGroup (groupId : C.Carrier .groupId) : EStateM String (Owning Unit Session) Unit := do
  match ← mapError T.display (attempt (poolTransaction T env (deleteGroupById T C env groupId))) with
  | .ok () => return ()
  | .error error =>
    if error.recoverable then
      mapError (fun cleanupError => "delete_group MLS transaction: " ++ T.display error ++
        "; isolated cleanup: " ++ T.display cleanupError) (cleanup T C env groupId)
    else throw ("delete_group MLS transaction: " ++ T.display error)

/-! ## What each part leaves -/

variable {env} {T} {C}

/-- **The first failure** from a moment on is one of SQLite with primary code 1 or 11. -/
def DamagedFirst (env : Lib.Surroundings Database RusqliteError) (start : ℕ) : Prop :=
  ∃ i code detail, start ≤ i ∧ (∀ j, start ≤ j → j < i → env.fault j = none) ∧
    env.fault i = some (.sqliteFailure code detail) ∧
    (code &&& 0xff = 1 ∨ code &&& 0xff = 11)

theorem damagedFirst_of_fault {i : ℕ} {e : RusqliteError} (h : env.fault i = some e)
    (he : e.recoverable = true) : DamagedFirst env i := by
  cases e with
  | sqliteFailure code detail =>
    exact ⟨i, code, detail, le_rfl, fun j hj hlt => by omega, h, of_decide_eq_true he⟩
  | other text => cases he

/-- No failure from one moment on and before another. -/
def Clear (env : Lib.Surroundings Database RusqliteError) (a b : ℕ) : Prop :=
  ∀ j, a ≤ j → j < b → env.fault j = none

theorem DamagedFirst.of_clear {a b : ℕ} (h : DamagedFirst env b) (hab : a ≤ b)
    (hclear : Clear env a b) : DamagedFirst env a := by
  obtain ⟨i, code, detail, hi, hbefore, hfault, hcode⟩ := h
  refine ⟨i, code, detail, by omega, fun j hj hlt => ?_, hfault, hcode⟩
  rcases Nat.lt_or_ge j b with hjb | hjb
  · exact hclear j hj hjb
  · exact hbefore j hjb hlt

/-- What a part of the call leaves beside the tables when no failure hits it. -/
structure Unhit (env : Lib.Surroundings Database RusqliteError) (s t : Owning Unit Session) :
    Prop where
  beside : t.world.beside = s.world.beside
  seen : t.world.seen = s.world.seen
  time : s.world.time ≤ t.world.time
  clear : Clear env s.world.time t.world.time

/-- What a part of the call leaves when it fails. -/
structure Hit (env : Lib.Surroundings Database RusqliteError) (s : Owning Unit Session)
    (e : RusqliteError) (t : Owning Unit Session) : Prop where
  beside : t.world.beside = s.world.beside
  seen : t.world.seen = s.world.seen
  damaged : e.recoverable = true → DamagedFirst env s.world.time

theorem Unhit.trans {s t u : Owning Unit Session} (h : Unhit env s t) (h' : Unhit env t u) :
    Unhit env s u where
  beside := h'.beside.trans h.beside
  seen := h'.seen.trans h.seen
  time := h.time.trans h'.time
  clear j hj hlt := by
    rcases Nat.lt_or_ge j t.world.time with hjt | hjt
    · exact h.clear j hj hjt
    · exact h'.clear j hjt hlt

theorem Unhit.hit {s t u : Owning Unit Session} {e : RusqliteError} (h : Unhit env s t)
    (h' : Hit env t e u) : Hit env s e u where
  beside := h'.beside.trans h.beside
  seen := h'.seen.trans h.seen
  damaged he := (h'.damaged he).of_clear h.time h.clear

theorem unhit_tick {s : Owning Unit Session} (h : env.fault s.world.time = none) (store : Database) :
    Unhit env s ⟨(), Lib.Session.tick { s.world with store := store }⟩ where
  beside := rfl
  seen := rfl
  time := Nat.le_succ _
  clear j hj hlt := by
    have hlt : j < s.world.time + 1 := hlt
    obtain rfl : s.world.time = j := by omega
    exact h

theorem step_spec (s : Owning Unit Session) : wp (step env) s
    (fun _ t => Unhit env s t ∧ t.world.store = s.world.store)
    fun e t => Hit env s e t ∧ t.world.store = s.world.store := by
  rw [step, wp_call]
  cases hfault : env.fault s.world.time with
  | some e => exact ⟨⟨rfl, rfl, damagedFirst_of_fault hfault⟩, rfl⟩
  | none => exact ⟨unhit_tick hfault _, rfl⟩

theorem execute_spec (delete : Bytes → Database → Database) (groupId : C.Carrier .groupId)
    (s : Owning Unit Session) : wp (execute C env delete groupId) s
      (fun _ t => Unhit env s t ∧ ∃ bytes, C.toVec groupId = .ok bytes ∧
        t.world.store = delete bytes s.world.store)
      fun e t => Hit env s e t := by
  rw [execute, wp_call]
  cases hfault : env.fault s.world.time with
  | some e => exact ⟨rfl, rfl, damagedFirst_of_fault hfault⟩
  | none =>
    dsimp only
    rw [wp_bind]
    cases hid : C.toVec groupId with
    | error e => exact ⟨rfl, rfl, fun he => by cases he⟩
    | ok bytes => exact ⟨unhit_tick hfault _, bytes, rfl, rfl⟩

/-- **Statement after statement**; the induction is on the tables. -/
theorem deletions_spec (tables : List (String × (Bytes → Database → Database)))
    (groupId : C.Carrier .groupId) (s : Owning Unit Session) :
    wp (tables.forM (deleteFrom T C env groupId)) s
      (fun _ t => Unhit env s t ∧ ∀ bytes, C.toVec groupId = .ok bytes →
        t.world.store = tables.foldl (fun db table => table.2 bytes db) s.world.store)
      fun e t => Hit env s e t := by
  induction tables generalizing s with
  | nil => exact ⟨⟨rfl, rfl, le_rfl, fun j hj hlt => by omega⟩, fun _ _ => rfl⟩
  | cons table tables ih =>
    change wp (deleteFrom T C env groupId table >>= fun _ =>
      tables.forM (deleteFrom T C env groupId)) s _ _
    rw [wp_bind, deleteFrom, wp_mapError]
    refine wp_mono (execute_spec table.2 groupId s) (fun _ t ht => ?_) fun e t ht => ?_
    · obtain ⟨hunhit, bytes, hid, hstore⟩ := ht
      refine wp_mono (ih t) (fun _ u hu => ⟨hunhit.trans hu.1, fun bytes' hid' => ?_⟩)
        fun e u hu => hunhit.hit hu
      obtain rfl := Except.ok.inj (hid.symm.trans hid')
      rw [hu.2 bytes hid, hstore, List.foldl_cons]
    · refine ⟨ht.beside, ht.seen, fun he => ht.damaged ?_⟩
      rwa [recoverable_sqliteErrorContext] at he

theorem deleteGroupById_spec (groupId : C.Carrier .groupId) (s : Owning Unit Session) :
    wp (deleteGroupById T C env groupId) s
      (fun _ t => Unhit env s t ∧ ∃ bytes, C.toVec groupId = .ok bytes ∧
        t.world.store = withoutGroup bytes s.world.store)
      fun e t => Hit env s e t := by
  cases hid : C.toVec groupId with
  | ok bytes =>
    refine wp_mono (deletions_spec groupScoped groupId s) (fun _ t ht => ?_) fun _ _ h => h
    exact ⟨ht.1, bytes, rfl, ht.2 bytes hid⟩
  | error e =>
    change wp (deleteFrom T C env groupId _ >>= fun _ => _) s _ _
    rw [wp_bind, deleteFrom, wp_mapError]
    refine wp_mono (execute_spec _ groupId s) (fun _ t ht => ?_) fun e t ht => ?_
    · obtain ⟨-, bytes, hbytes, -⟩ := ht
      rw [hid] at hbytes
      cases hbytes
    · refine ⟨ht.beside, ht.seen, fun he => ht.damaged ?_⟩
      rwa [recoverable_sqliteErrorContext] at he

/-- What an attempt leaves: the tables as others left them, without the group if it succeeds. -/
structure Attempted (env : Lib.Surroundings Database RusqliteError) (s t : Owning Unit Session)
    (f : Database → Database) : Prop where
  beside : t.world.beside = s.world.beside
  seen : s.world.seen ≤ t.world.seen
  store : t.world.store = f (meanwhile env s.world t.world)

/-- A transaction of the six deletions, begun at a moment before which nothing failed. -/
theorem transaction_spec (groupId : C.Carrier .groupId) {x : Action Unit} {s : Owning Unit Session}
    (hx : ∀ s, wp x s
      (fun _ t => Unhit env s t ∧ ∃ bytes, C.toVec groupId = .ok bytes ∧
        t.world.store = withoutGroup bytes s.world.store)
      fun e t => Hit env s e t) : wp (Lib.transaction env id x) s
      (fun _ t => ∃ bytes, C.toVec groupId = .ok bytes ∧ Attempted env s t (withoutGroup bytes))
      fun e t => Attempted env s t id ∧ (e.recoverable = true → DamagedFirst env s.world.time) := by
  have hseen : s.world.seen ≤ (s.world.await env).seen := le_max_left _ _
  -- the tables go back to the snapshot
  have hback : ∀ t : Owning Unit Session, t.world.beside = s.world.beside →
      t.world.store = (s.world.await env).store → t.world.seen = (s.world.await env).seen →
      Attempted env s t id := by
    intro t hbeside hstore ht
    refine ⟨hbeside, ht ▸ hseen, ?_⟩
    rw [hstore, await_store, meanwhile, meanwhile, ht]
    rfl
  apply Lib.wp_transaction
  · exact fun e he => ⟨hback _ rfl rfl rfl, damagedFirst_of_fault he⟩
  · intro hbegin
    have hclear : Clear env s.world.time (s.world.time + 1) := by
      intro j hj hlt
      obtain rfl : s.world.time = j := by omega
      exact hbegin
    refine wp_mono (hx _) (fun _ t ht => ?_) fun e t ht => ?_
    · obtain ⟨hunhit, bytes, hid, hstore⟩ := ht
      have hdamaged : ∀ e, env.fault t.world.time = some e → e.recoverable = true →
          DamagedFirst env s.world.time := by
        intro e he hrec
        have h := (damagedFirst_of_fault he hrec).of_clear hunhit.time hunhit.clear
        exact h.of_clear (Nat.le_succ _) hclear
      refine ⟨fun e he => ⟨hback _ hunhit.beside rfl rfl, hdamaged e he⟩, fun _ => ?_⟩
      refine ⟨bytes, hid, hunhit.beside, hseen, ?_⟩
      change t.world.store = _
      rw [hstore]
      change withoutGroup bytes (s.world.await env).store = _
      rw [await_store]
      rfl
    · refine ⟨hback _ ht.beside rfl rfl, fun he => ?_⟩
      exact (ht.damaged he).of_clear (Nat.le_succ _) hclear

theorem poolTransaction_spec (groupId : C.Carrier .groupId) (s : Owning Unit Session) :
    wp (poolTransaction T env (deleteGroupById T C env groupId)) s
      (fun _ t => ∃ bytes, C.toVec groupId = .ok bytes ∧ Attempted env s t (withoutGroup bytes))
      fun e t => Attempted env s t id ∧ (e.recoverable = true → DamagedFirst env s.world.time) := by
  rw [poolTransaction, wp_bind, checkout, wp_mapError]
  refine wp_mono (step_spec s) (fun _ t ht => ?_) fun e t ht => ?_
  · obtain ⟨hunhit, hstore⟩ := ht
    have hfrom : ∀ {f : Database → Database} {u : Owning Unit Session}, Attempted env t u f →
        Attempted env s u f := by
      intro f u hu
      have htstore : t.world.store = meanwhile env s.world t.world := by
        rw [hstore, meanwhile_self _ _ hunhit.seen]
      refine ⟨hu.beside.trans hunhit.beside, hunhit.seen ▸ hu.seen, ?_⟩
      rw [hu.store, meanwhile_trans (le_of_eq hunhit.seen.symm) hu.seen htstore]
    have hbody : ∀ s, wp (do
        step env
        deleteGroupById T C env groupId) s
        (fun _ t => Unhit env s t ∧ ∃ bytes, C.toVec groupId = .ok bytes ∧
          t.world.store = withoutGroup bytes s.world.store)
        fun e t => Hit env s e t := by
      intro s
      rw [wp_bind]
      refine wp_mono (step_spec s) (fun _ t ht => ?_) fun e t ht => ht.1
      refine wp_mono (deleteGroupById_spec groupId t) (fun _ u hu => ?_) fun e u hu => ht.1.hit hu
      obtain ⟨hu, bytes, hid, hstore⟩ := hu
      exact ⟨ht.1.trans hu, bytes, hid, by rw [hstore, ht.2]⟩
    refine wp_mono (transaction_spec groupId hbody) (fun _ u hu => ?_) fun e u hu => ?_
    · obtain ⟨bytes, hid, hu⟩ := hu
      exact ⟨bytes, hid, hfrom hu⟩
    · exact ⟨hfrom hu.1, fun he => (hu.2 he).of_clear hunhit.time hunhit.clear⟩
  · refine ⟨⟨ht.1.beside, ht.1.seen.ge, ?_⟩, fun he => by cases he⟩
    rw [ht.2, meanwhile_self _ _ ht.1.seen]
    rfl

theorem cleanup_spec (groupId : C.Carrier .groupId) (s : Owning Unit Session) :
    wp (cleanup T C env groupId) s
      (fun _ t => s.world.seen ≤ t.world.seen ∧ ∃ bytes, C.toVec groupId = .ok bytes ∧
        t.world.store = withoutGroup bytes (meanwhile env s.world t.world))
      fun _ t => s.world.seen ≤ t.world.seen ∧ t.world.store = meanwhile env s.world t.world := by
  rw [cleanup, wp_bind, openFreshConnection, wp_bind, wp_modify]
  have hself : ∀ t : Owning Unit Session, t.world.seen = s.world.seen →
      t.world.store = s.world.store →
      s.world.seen ≤ t.world.seen ∧ t.world.store = meanwhile env s.world t.world :=
    fun t hseen hstore => ⟨hseen.ge, by rw [hstore, meanwhile_self _ _ hseen]⟩
  refine wp_mono (step_spec _) (fun _ t ht => ?_) fun _ t ht => hself t ht.1.seen ht.2
  rw [wp_bind]
  refine wp_mono (step_spec t) (fun _ u hu => ?_)
    fun _ u hu => hself u (hu.1.seen.trans ht.1.seen) (hu.2.trans ht.2)
  obtain ⟨hle, hstore⟩ := hself u (hu.1.seen.trans ht.1.seen) (hu.2.trans ht.2)
  refine wp_mono (transaction_spec groupId fun s => deleteGroupById_spec groupId s)
    (fun _ v hv => ?_) fun e v hv => ?_
  · obtain ⟨bytes, hid, hv⟩ := hv
    refine ⟨hle.trans hv.seen, bytes, hid, ?_⟩
    rw [hv.store, meanwhile_trans hle hv.seen hstore]
  · refine ⟨hle.trans hv.1.seen, ?_⟩
    rw [hv.1.store, meanwhile_trans hle hv.1.seen hstore]
    rfl

theorem deleteGroup_spec (groupId : C.Carrier .groupId) (s : Owning Unit Session) :
    wp (deleteGroup T C env groupId) s
      (fun _ t => s.world.seen ≤ t.world.seen ∧
        (t.world.beside ≠ s.world.beside → DamagedFirst env s.world.time) ∧
        ∃ bytes, C.toVec groupId = .ok bytes ∧
          t.world.store = withoutGroup bytes (meanwhile env s.world t.world))
      fun _ t => s.world.seen ≤ t.world.seen ∧
        (t.world.beside ≠ s.world.beside → DamagedFirst env s.world.time) ∧
        t.world.store = meanwhile env s.world t.world := by
  rw [deleteGroup, wp_bind, wp_mapError, wp_attempt]
  refine wp_mono (poolTransaction_spec groupId s) (fun _ t ht => ?_) fun error t ht => ?_
  · obtain ⟨bytes, hid, ht⟩ := ht
    exact ⟨ht.seen, fun hne => absurd ht.beside hne, bytes, hid, ht.store⟩
  · obtain ⟨ht, hdamaged⟩ := ht
    dsimp only
    refine wp_ite (fun hrec => ?_) fun _ => ?_
    · rw [wp_mapError]
      refine wp_mono (cleanup_spec groupId t) (fun _ u hu => ?_) fun _ u hu => ?_
      · obtain ⟨hle, bytes, hid, hstore⟩ := hu
        refine ⟨ht.seen.trans hle, fun _ => hdamaged hrec, bytes, hid, ?_⟩
        rw [hstore, meanwhile_trans ht.seen hle ht.store]
      · refine ⟨ht.seen.trans hu.1, fun _ => hdamaged hrec, ?_⟩
        rw [hu.2, meanwhile_trans ht.seen hu.1 ht.store]
    · exact ⟨ht.seen, fun hne => absurd ht.beside hne, ht.store⟩

end GroupDelete

theorem withoutGroup_withoutGroup (bytes : Bytes) (tables : Database) :
    withoutGroup bytes (withoutGroup bytes tables) = withoutGroup bytes tables := by
  have hfilter : ∀ {ρ : Type} (p : ρ → Bool) (rows : List ρ),
      (rows.filter p).filter p = rows.filter p := by
    intro ρ p rows
    rw [List.filter_filter]
    simp
  simp only [withoutGroup, Table.deleteWhere, hfilter]

/-- **Deleting a group by id is all or nothing.** With success no row of the group is left at the
provider's version, and every other row is as others left it; with an error all rows are. A second
call changes nothing. A fresh connection is opened only if the first failure is one of SQLite with
primary code 1 or 11. -/
theorem deleteGroup_exact (T : ErrorTexts) (C : Codec)
    (env : Lib.Surroundings Database RusqliteError) (groupId : C.Carrier .groupId)
    (s : Owning Unit GroupDelete.Session) :
    let r := (GroupDelete.deleteGroup T C env groupId).run s
    let again := (GroupDelete.deleteGroup T C env groupId).run (final r)
    (outcome r = .ok () → ∃ bytes, C.toVec groupId = .ok bytes ∧
      NoRows (final r).world.store bytes ∧
      (final r).world.store = withoutGroup bytes (meanwhile env s.world (final r).world)) ∧
    (∀ e, outcome r = .error e →
      (final r).world.store = meanwhile env s.world (final r).world) ∧
    (outcome r = .ok () →
      meanwhile env (final r).world (final again).world = (final r).world.store →
      (final again).world.store = (final r).world.store) ∧
    ((final r).world.beside ≠ s.world.beside → ∃ i code detail, s.world.time ≤ i ∧
      (∀ j, s.world.time ≤ j → j < i → env.fault j = none) ∧
      env.fault i = some (.sqliteFailure code detail) ∧
      (code &&& 0xff = 1 ∨ code &&& 0xff = 11)) := by
  intro r again
  have hcall : ∀ s : Owning Unit GroupDelete.Session,
      let r := (GroupDelete.deleteGroup T C env groupId).run s
      ((final r).world.beside ≠ s.world.beside → GroupDelete.DamagedFirst env s.world.time) ∧
        (outcome r = .ok () → ∃ bytes, C.toVec groupId = .ok bytes ∧
          (final r).world.store = withoutGroup bytes (meanwhile env s.world (final r).world)) ∧
        ∀ e, outcome r = .error e →
          (final r).world.store = meanwhile env s.world (final r).world := by
    intro s r
    have hspec : wp (GroupDelete.deleteGroup T C env groupId) s _ _ :=
      GroupDelete.deleteGroup_spec groupId s
    cases hrun : (GroupDelete.deleteGroup T C env groupId).run s with
    | ok u t =>
      obtain ⟨-, hfresh, hstore⟩ := (wp_of_ok hrun).mp hspec
      rw [show r = .ok u t from hrun]
      exact ⟨hfresh, fun _ => hstore, fun e he => by cases he⟩
    | error e t =>
      obtain ⟨-, hfresh, hstore⟩ := (wp_of_error hrun).mp hspec
      rw [show r = .error e t from hrun]
      exact ⟨hfresh, fun he => (by cases he), fun _ _ => hstore⟩
  obtain ⟨hfresh, hok, herror⟩ := hcall s
  refine ⟨fun h => ?_, herror, fun h hothers => ?_, hfresh⟩
  · obtain ⟨bytes, hid, hstore⟩ := hok h
    refine ⟨bytes, hid, ?_, hstore⟩
    rw [hstore]
    exact withoutGroup_noRows _ _
  · obtain ⟨bytes, hid, hstore⟩ := hok h
    obtain ⟨-, hok', herror'⟩ := hcall (final r)
    cases hagain : outcome again with
    | ok u =>
      obtain ⟨bytes', hid', hstore'⟩ := hok' hagain
      obtain rfl := Except.ok.inj (hid.symm.trans hid')
      rw [hstore', hothers, hstore, withoutGroup_withoutGroup]
    | error e => rw [herror' e hagain, hothers]

def otherVersion : Database :=
  { Database.empty with
    groupData :=
      { rows := [{ providerVersion := 2, groupId := [7], dataType := .tree, groupData := [] }]
        nodup := by decide } }

def noTexts : ErrorTexts where
  display _ := ""
  code _ := ""
  debug _ := ""
  checkout _ := ""

/-- **A row of the group stays** if another version of the provider wrote it. -/
theorem not_every_version :
    let r := (GroupDelete.deleteGroup noTexts Storage.byteCodec .calm 7).run
      ⟨(), { store := otherVersion, beside := 0, time := 0, seen := 0 }⟩
    outcome r = .ok () ∧ ∃ row ∈ (final r).world.store.groupData.rows, row.groupId = [7] := by
  decide +kernel

end KChat.Mls
