import KChat.Storage.GroupTables

/-!
# The migration of message secrets

When the provider is opened, the message secrets of a group move from the row in which older
versions kept them all to one row for each epoch.

* `migrateGroupEpochMessageSecrets`, `tryMigrateEpochMessageSecrets`, `SqliteProvider.new`.
* `Exports`: what is relied on of the export of the old row.
* `Untouched`, `Migrated`: the two things that can become of a group. **`new_moves`**: what one open
  does.
* `Opens`: any number of opens. **`secretsMigration_safe`**.
-/

namespace KChat.Storage

open Lib

variable {C : Codec}
  (exportSnapshot : Database → C.Carrier .groupId → Except String (Option (List (ℕ × Bytes))))
  (env : Surroundings)

/-! ## The code -/

def migrateGroupEpochMessageSecrets (groupId : C.Carrier .groupId) : Action Unit := do
  match ← mapError ("Storage error: " ++ ·) (inTx env do
    ofResult (exportSnapshot (← get) groupId)) with
  | none => return ()
  | some messageSecrets =>
    mapError ("Sqlite error: " ++ ·) do
      StorableGroupEpochMessageSecrets.replaceInTx env groupId messageSecrets
      StorableGroupData.deleteGroupDataInTx env groupId .messageSecrets

/-- Each group in a transaction of its own, whose error is logged. -/
def migrateGroups : List (C.Carrier .groupId) → Action Unit
  | [] => return ()
  | groupId :: groupIds => do
    let _ ← attempt (transaction env (migrateGroupEpochMessageSecrets exportSnapshot env groupId))
    migrateGroups groupIds

/-- The rest of an open that found groups to migrate. -/
def migrateBatch (groupIds : List (C.Carrier .groupId)) : Action Unit := do
  migrateGroups exportSnapshot env groupIds
  if !(← StorableGroupEpochMessageSecrets.hasLegacyMessageSecrets env) then
    StorableEpochMigrationState.markLegacyMessageSecretsMigrationDone env true
  else return ()

def tryMigrateEpochMessageSecrets : Action Unit := do
  if ← StorableEpochMigrationState.isLegacyMessageSecretsMigrationDone env then return ()
  else
    let groupIds ←
      StorableGroupEpochMessageSecrets.listGroupIdsWithMessageSecrets env defaultMigrationBatchSize
    if groupIds.isEmpty then
      StorableEpochMigrationState.markLegacyMessageSecretsMigrationDone env true
    else migrateBatch exportSnapshot env groupIds

/-- Its error is logged. -/
def migrateEpochMessageSecrets : Action Unit := do
  let _ ← attempt (tryMigrateEpochMessageSecrets exportSnapshot env)
  return ()

/-- Tables that have the schema are as they are after the schema migrations. -/
def runMigrations : Action Unit := pooled env (pure ())

def SqliteProvider.new : Action Unit := do
  mapError ("Sqlite migration error: " ++ ·) (runMigrations env)
  migrateEpochMessageSecrets exportSnapshot env

/-! ## What becomes of a group -/

/-- The group with these bytes for its id has its message secrets in one row. -/
def HasLegacyRow (db : Database) (groupId : Bytes) : Prop :=
  ∃ row ∈ db.groupData.rows, row.providerVersion = storageProviderVersion ∧
    row.groupId = groupId ∧ row.dataType = .messageSecrets

/-- The migration is marked as done. -/
def IsMarkedDone (db : Database) : Prop :=
  ∃ row ∈ db.epochMigrationState.rows, row.providerVersion = storageProviderVersion ∧
    row.legacyMessageSecretsMigrationDone ≠ 0

/-- The message secrets of an epoch. -/
def epochSecrets (db : Database) (groupId : Bytes) (epoch : ℤ) : Option Bytes :=
  (db.groupEpochMessageSecrets.get (storageProviderVersion, groupId, epoch)).map (·.messageSecrets)

/-- The secrets that a snapshot has for an epoch. -/
def inSnapshot (snapshot : List (ℕ × Bytes)) (epoch : ℤ) : Option Bytes :=
  lastEntry (snapshot.map fun entry => ((entry.1 : ℤ), entry.2)) epoch

/-- **The rows of the group** are what they were. -/
structure Untouched (groupId : Bytes) (db db' : Database) : Prop where
  groupData : ∀ dataType,
    db'.groupData.get (groupId, dataType) = db.groupData.get (groupId, dataType)
  epochSecrets : ∀ version epoch, db'.groupEpochMessageSecrets.get (version, groupId, epoch) =
    db.groupEpochMessageSecrets.get (version, groupId, epoch)

/-- **The old row is gone**, and the secrets of the epochs are the snapshot that was exported from
it. -/
structure Migrated (groupId : Bytes) (db db' : Database) : Prop where
  noLegacyRow : ¬HasLegacyRow db' groupId
  exported : ∃ id snapshot, C.toVec id = .ok groupId ∧ exportSnapshot db id = .ok (some snapshot) ∧
    ∀ epoch, epochSecrets db' groupId epoch = inSnapshot snapshot epoch

/-- All other tables are what they were. -/
def SameElsewhere (db db' : Database) : Prop :=
  db' = { db with
    groupData := db'.groupData
    groupEpochMessageSecrets := db'.groupEpochMessageSecrets
    epochMigrationState := db'.epochMigrationState }

/-- **What an open may do**: some groups are migrated, the others are left alone, and the migration
is marked as done only when there is nothing left. -/
structure Moves (db db' : Database) : Prop where
  elsewhere : SameElsewhere db db'
  groups : ∀ groupId, Untouched groupId db db' ∨
    HasLegacyRow db groupId ∧ Migrated exportSnapshot groupId db db'
  marked : IsMarkedDone db' → IsMarkedDone db ∨ ∀ groupId, ¬HasLegacyRow db' groupId

/-- **The export** reads the rows of its group, and it finds nothing where there is no old row. -/
structure Exports : Prop where
  congr : ∀ {db db' id groupId}, C.toVec id = .ok groupId → Untouched groupId db db' →
    exportSnapshot db' id = exportSnapshot db id
  legacy : ∀ {db id groupId snapshot}, C.toVec id = .ok groupId →
    exportSnapshot db id = .ok (some snapshot) → HasLegacyRow db groupId

/-- **The database after any number of opens**, with failures anywhere. -/
inductive Opens (db : Database) : Database → Prop
  | none : Opens db db
  | once {db' : Database} {env : Surroundings} {s : Session} : Opens db db' →
      (∀ t, env.others t = []) → s.store = db' →
      Opens db (final ((SqliteProvider.new exportSnapshot env).run s)).store

/-! ## Moves -/

variable {exportSnapshot} {env} {db db' db'' : Database} {groupId : Bytes}

theorem hasLegacyRow_iff : HasLegacyRow db groupId ↔
    ∃ row, db.groupData.get (groupId, .messageSecrets) = some row ∧
      row.providerVersion = storageProviderVersion := by
  constructor
  · rintro ⟨row, hmem, hversion, rfl, htype⟩
    refine ⟨row, ?_, hversion⟩
    rw [← htype]
    exact Table.mem_rows_iff.mp hmem
  · rintro ⟨row, hget, hversion⟩
    obtain ⟨hmem, hkey⟩ := Table.get_eq_some_iff.mp hget
    exact ⟨row, hmem, hversion, congrArg Prod.fst hkey, congrArg Prod.snd hkey⟩

theorem SameElsewhere.trans (h : SameElsewhere db db') (h' : SameElsewhere db' db'') :
    SameElsewhere db db'' := by
  unfold SameElsewhere at h h' ⊢
  rw [h', h]

namespace Untouched

theorem refl : Untouched groupId db db := ⟨fun _ => rfl, fun _ _ => rfl⟩

theorem trans (h : Untouched groupId db db') (h' : Untouched groupId db' db'') :
    Untouched groupId db db'' where
  groupData dataType := (h'.groupData dataType).trans (h.groupData dataType)
  epochSecrets version epoch := (h'.epochSecrets version epoch).trans (h.epochSecrets version epoch)

theorem hasLegacyRow_iff (h : Untouched groupId db db') :
    HasLegacyRow db' groupId ↔ HasLegacyRow db groupId := by
  rw [Storage.hasLegacyRow_iff, Storage.hasLegacyRow_iff, h.groupData]

theorem epochSecrets_eq (h : Untouched groupId db db') (epoch : ℤ) :
    Storage.epochSecrets db' groupId epoch = Storage.epochSecrets db groupId epoch := by
  rw [Storage.epochSecrets, Storage.epochSecrets, h.epochSecrets]

end Untouched

namespace Migrated

/-- A group that is left alone afterwards stays migrated. -/
theorem untouched (h : Migrated exportSnapshot groupId db db') (h' : Untouched groupId db' db'') :
    Migrated exportSnapshot groupId db db'' := by
  obtain ⟨id, snapshot, hid, hexported, hsecrets⟩ := h.exported
  refine ⟨fun hrow => h.noLegacyRow (h'.hasLegacyRow_iff.mp hrow), id, snapshot, hid, hexported, ?_⟩
  exact fun epoch => (h'.epochSecrets_eq epoch).trans (hsecrets epoch)

/-- A group that was left alone until then is migrated from what it was. -/
theorem of_untouched (hexport : Exports exportSnapshot) (h : Untouched groupId db db')
    (h' : Migrated exportSnapshot groupId db' db'') : Migrated exportSnapshot groupId db db'' := by
  obtain ⟨id, snapshot, hid, hexported, hsecrets⟩ := h'.exported
  exact ⟨h'.noLegacyRow, id, snapshot, hid, (hexport.congr hid h).symm.trans hexported, hsecrets⟩

end Migrated

namespace Moves

theorem refl : Moves exportSnapshot db db where
  elsewhere := rfl
  groups _ := .inl .refl
  marked h := .inl h

/-- Only a group that has an old row gets rid of one. -/
theorem hasLegacyRow (h : Moves exportSnapshot db db') (hrow : HasLegacyRow db' groupId) :
    HasLegacyRow db groupId := by
  rcases h.groups groupId with huntouched | ⟨hlegacy, _⟩
  · exact huntouched.hasLegacyRow_iff.mp hrow
  · exact hlegacy

/-- **One after the other.** -/
theorem trans (hexport : Exports exportSnapshot) (h : Moves exportSnapshot db db')
    (h' : Moves exportSnapshot db' db'') : Moves exportSnapshot db db'' where
  elsewhere := h.elsewhere.trans h'.elsewhere
  groups groupId := by
    rcases h.groups groupId, h'.groups groupId with
      ⟨huntouched | ⟨hlegacy, hmigrated⟩, huntouched' | ⟨hlegacy', hmigrated'⟩⟩
    · exact .inl (huntouched.trans huntouched')
    · exact .inr ⟨huntouched.hasLegacyRow_iff.mp hlegacy', .of_untouched hexport huntouched hmigrated'⟩
    · exact .inr ⟨hlegacy, hmigrated.untouched huntouched'⟩
    · exact absurd hlegacy' hmigrated.noLegacyRow
  marked hdone := by
    rcases h'.marked hdone with hdone' | hnone
    · rcases h.marked hdone' with hdone'' | hnone
      · exact .inl hdone''
      · exact .inr fun groupId hrow => hnone groupId (h'.hasLegacyRow hrow)
    · exact .inr hnone

end Moves

/-! ## One group -/

theorem inSnapshot_nil (e : ℤ) : inSnapshot [] e = none := rfl

theorem inSnapshot_cons (epoch : ℕ) (bytes : Bytes) (snapshot : List (ℕ × Bytes)) (e : ℤ) :
    inSnapshot ((epoch, bytes) :: snapshot) e =
      (inSnapshot snapshot e).or (if (epoch : ℤ) = e then some bytes else none) :=
  lastEntry_cons _ _ e

/-- What the rows of the epochs become when secrets are stored over them. -/
structure Stored (groupId : Bytes) (snapshot : List (ℕ × Bytes)) (db db' : Database) : Prop where
  elsewhere : db' = { db with groupEpochMessageSecrets := db'.groupEpochMessageSecrets }
  others : ∀ k, k.2.1 ≠ groupId →
    db'.groupEpochMessageSecrets.get k = db.groupEpochMessageSecrets.get k
  epochSecrets : ∀ epoch, epochSecrets db' groupId epoch =
    (inSnapshot snapshot epoch).or (epochSecrets db groupId epoch)

theorem storeInTx_stored {id : C.Carrier .groupId} (hid : C.toVec id = .ok groupId) (epoch : ℕ)
    (bytes : Bytes) (s : Session) :
    wp (StorableGroupEpochMessageSecrets.storeInTx env id epoch bytes) s
      (fun _ t => Stored groupId [(epoch, bytes)] s.store t.store) fun _ _ => True := by
  refine wp_inTx (fun _ _ => trivial) fun _ => ?_
  rw [hid, wp_bind]
  refine wp_ofResult (fun _ h => ?_) fun _ _ => trivial
  cases h
  rw [wp_bind]
  refine wp_ofResult (fun z hz => ?_) fun _ _ => trivial
  rw [u64ToSql_eq_ok hz, execute, wp_modify]
  refine ⟨rfl, fun k hk => ?_, fun e => ?_⟩
  · refine Table.get_upsert_of_ne fun hkey => hk ?_
    rw [hkey]
    rfl
  rw [inSnapshot_cons, inSnapshot_nil, Option.none_or]
  by_cases he : (epoch : ℤ) = e
  · subst he
    rw [if_pos rfl, Option.some_or]
    exact congrArg (Option.map _) (Table.get_upsert_self fun _ _ => rfl)
  · rw [if_neg he, Option.none_or]
    refine congrArg (Option.map _) (Table.get_upsert_of_ne fun hkey => he ?_)
    exact (congrArg (fun k => k.2.2) hkey).symm

theorem storeAllInTx_stored {id : C.Carrier .groupId} (hid : C.toVec id = .ok groupId)
    (snapshot : List (ℕ × Bytes)) (s : Session) :
    wp (StorableGroupEpochMessageSecrets.storeAllInTx env id snapshot) s
      (fun _ t => Stored groupId snapshot s.store t.store) fun _ _ => True := by
  induction snapshot generalizing s with
  | nil => exact ⟨rfl, fun _ _ => rfl, fun _ => rfl⟩
  | cons entry snapshot ih =>
    rw [StorableGroupEpochMessageSecrets.storeAllInTx, wp_bind]
    refine wp_mono (storeInTx_stored hid _ _ s) (fun _ t ht => ?_) fun _ _ _ => trivial
    refine wp_mono (ih t) (fun _ u hu => ⟨?_, fun k hk => ?_, fun e => ?_⟩) fun _ _ _ => trivial
    · rw [hu.elsewhere, ht.elsewhere]
    · exact (hu.others k hk).trans (ht.others k hk)
    · rw [hu.epochSecrets, ht.epochSecrets, inSnapshot_cons, inSnapshot_cons, inSnapshot_nil,
        Option.none_or, Option.or_assoc]

/-- After the old rows of the epochs are gone there is nothing but the snapshot. -/
theorem replaceInTx_stored {id : C.Carrier .groupId} (hid : C.toVec id = .ok groupId)
    (snapshot : List (ℕ × Bytes)) (s : Session) :
    wp (StorableGroupEpochMessageSecrets.replaceInTx env id snapshot) s (fun _ t =>
      t.store = { s.store with groupEpochMessageSecrets := t.store.groupEpochMessageSecrets } ∧
      (∀ k, k.2.1 ≠ groupId →
        t.store.groupEpochMessageSecrets.get k = s.store.groupEpochMessageSecrets.get k) ∧
      ∀ epoch, epochSecrets t.store groupId epoch = inSnapshot snapshot epoch)
      fun _ _ => True := by
  rw [StorableGroupEpochMessageSecrets.replaceInTx, wp_bind]
  refine wp_inTx (fun _ _ => trivial) fun _ => ?_
  rw [hid, wp_bind]
  refine wp_ofResult (fun _ h => ?_) fun _ _ => trivial
  cases h
  rw [execute, wp_modify]
  refine wp_mono (storeAllInTx_stored hid snapshot _) (fun _ t ht => ⟨?_, fun k hk => ?_, fun e => ?_⟩)
    fun _ _ _ => trivial
  · rw [ht.elsewhere]
    rfl
  · refine (ht.others k hk).trans (Table.get_deleteWhere_of_kept fun row hrow => ?_)
    have hid' : row.groupId ≠ groupId := fun h => hk ((congrArg (fun k => k.2.1) hrow).symm.trans h)
    simp [hid']
  · rw [ht.epochSecrets]
    have hgone : (Table.deleteWhere (fun row => row.providerVersion = storageProviderVersion ∧
        row.groupId = groupId) s.store.groupEpochMessageSecrets).get
          (storageProviderVersion, groupId, e) = none :=
      Table.get_deleteWhere_of_gone fun row hrow =>
        decide_eq_true ⟨congrArg Prod.fst hrow, congrArg (fun k => k.2.1) hrow⟩
    refine (congrArg (fun row => (inSnapshot snapshot e).or (Option.map _ row)) hgone).trans ?_
    exact Option.or_none

/-- The old row is deleted after the rows of its epochs are stored. -/
theorem deleteMessageSecrets_moves {id : C.Carrier .groupId} {snapshot : List (ℕ × Bytes)}
    (hid : C.toVec id = .ok groupId) (hexported : exportSnapshot db id = .ok (some snapshot))
    (hlegacy : HasLegacyRow db groupId) (s : Session)
    (helsewhere : s.store = { db with groupEpochMessageSecrets := s.store.groupEpochMessageSecrets })
    (hothers : ∀ k, k.2.1 ≠ groupId →
      s.store.groupEpochMessageSecrets.get k = db.groupEpochMessageSecrets.get k)
    (hsecrets : ∀ epoch, epochSecrets s.store groupId epoch = inSnapshot snapshot epoch) :
    wp (StorableGroupData.deleteGroupDataInTx env id .messageSecrets) s
      (fun _ t => Moves exportSnapshot db t.store) fun _ _ => True := by
  refine wp_inTx (fun _ _ => trivial) fun _ => ?_
  rw [hid, wp_bind]
  refine wp_ofResult (fun _ h => ?_) fun _ _ => trivial
  cases h
  rw [execute, wp_modify]
  have hdata : s.store.groupData = db.groupData := by
    rw [helsewhere]
  have hstate : s.store.epochMigrationState = db.epochMigrationState := by
    rw [helsewhere]
  refine ⟨?_, fun other => ?_, fun hdone => .inl ?_⟩
  · rw [Session.tick_store, helsewhere]
    rfl
  · by_cases hother : other = groupId
    · subst hother
      refine .inr ⟨hlegacy, fun hrow => ?_, id, snapshot, hid, hexported, hsecrets⟩
      obtain ⟨row, hmem, hversion, hrow, htype⟩ := hrow
      have hkept := (List.mem_filter.mp hmem).2
      simp [hversion, hrow, htype] at hkept
    · refine .inl ⟨fun dataType => ?_, fun version epoch => hothers _ hother⟩
      rw [← hdata]
      refine Table.get_deleteWhere_of_kept fun row hrow => ?_
      have hne : row.groupId ≠ groupId := fun h => hother ((congrArg Prod.fst hrow).symm.trans h)
      simp [hne]
  · obtain ⟨row, hmem, hrow⟩ := hdone
    exact ⟨row, hstate ▸ hmem, hrow⟩

/-- **One group** in its transaction. -/
theorem migrateGroup_moves (hexport : Exports exportSnapshot) (id : C.Carrier .groupId)
    (s : Session) : wp (migrateGroupEpochMessageSecrets exportSnapshot env id) s
      (fun _ t => Moves exportSnapshot s.store t.store) fun _ _ => True := by
  rw [migrateGroupEpochMessageSecrets, wp_bind, wp_mapError]
  refine wp_inTx (fun _ _ => trivial) fun _ => ?_
  rw [wp_bind, wp_get]
  refine wp_ofResult (fun exported hexported => ?_) fun _ _ => trivial
  cases exported with
  | none => exact .refl
  | some snapshot =>
    rw [wp_mapError, wp_bind]
    cases hid : C.toVec id with
    | error e =>
      rw [StorableGroupEpochMessageSecrets.replaceInTx, wp_bind]
      refine wp_inTx (fun _ _ => trivial) fun _ => ?_
      rw [hid, wp_bind]
      exact wp_ofResult (fun _ h => nomatch h) fun _ _ => trivial
    | ok groupId =>
      refine wp_mono (replaceInTx_stored hid snapshot _)
        (fun _ t ⟨helsewhere, hothers, hsecrets⟩ => ?_) fun _ _ _ => trivial
      exact deleteMessageSecrets_moves hid hexported (hexport.legacy hid hexported) t helsewhere
        hothers hsecrets

/-! ## One open -/

/-- From a database that an open may have made of `db`, to such a database. -/
abbrev Moving (exportSnapshot : Database → C.Carrier .groupId →
    Except String (Option (List (ℕ × Bytes)))) (db : Database) {α : Type} (x : Action α) : Prop :=
  Preserves (fun s => Moves exportSnapshot db s.store) (fun s => Moves exportSnapshot db s.store) x

/-- A statement that only reads. -/
theorem wp_pooled_reads {α : Type} (halone : ∀ t, env.others t = []) {x : Statement α}
    {Q : Database → α → Prop}
    (hx : ∀ db, wp x db (fun a db' => Q db a ∧ db' = db) fun _ db' => db' = db) (s : Session) :
    wp (pooled env x) s (fun a t => Q s.store a ∧ t.store = s.store) fun _ t => t.store = s.store := by
  have hstore := Session.await_store_of_alone halone s
  refine wp_pooled.mpr (wp_inTx (fun _ _ => hstore) fun _ => ?_)
  rw [hstore]
  exact hx s.store

theorem migrateGroups_moving (hexport : Exports exportSnapshot) (halone : ∀ t, env.others t = [])
    (ids : List (C.Carrier .groupId)) :
    Moving exportSnapshot db (migrateGroups exportSnapshot env ids) := by
  induction ids with
  | nil => exact .pure ()
  | cons id ids ih =>
    refine Preserves.bind (fun s hs => ?_) fun _ => ih
    have hstore := Session.await_store_of_alone halone s
    rw [wp_attempt, transaction, wp_unowned]
    refine wp_transaction (fun _ _ => ?_) fun _ => wp_onWorld.mpr ?_
    · rw [Session.tick_store, hstore]
      exact hs
    refine wp_mono (migrateGroup_moves hexport id _) (fun _ t ht => ⟨fun _ _ => ?_, fun _ => ?_⟩)
      fun _ t _ => ?_
    · rw [Session.tick_store, Session.rollback_store, hstore]
      exact hs
    · rw [Session.tick_store, Session.commit_store]
      rw [Session.tick_store, hstore] at ht
      exact hs.trans hexport ht
    · rw [Session.rollback_store, hstore]
      exact hs

theorem markDone_moves (hexport : Exports exportSnapshot) (halone : ∀ t, env.others t = [])
    {s : Session} (hs : Moves exportSnapshot db s.store)
    (hnone : ∀ groupId, ¬HasLegacyRow s.store groupId) :
    wp (StorableEpochMigrationState.markLegacyMessageSecretsMigrationDone env true) s
      (fun _ t => Moves exportSnapshot db t.store) fun _ t => Moves exportSnapshot db t.store := by
  have hstore := Session.await_store_of_alone halone s
  refine wp_pooled.mpr (wp_inTx (fun _ _ => ?_) fun _ => ?_)
  · rw [Session.tick_store, hstore]
    exact hs
  rw [hstore, execute, wp_modify]
  exact hs.trans hexport
    { elsewhere := rfl
      groups := fun _ => .inl ⟨fun _ => rfl, fun _ _ => rfl⟩
      marked := fun _ => .inr hnone }

theorem hasLegacyMessageSecrets_spec (halone : ∀ t, env.others t = []) (s : Session) :
    wp (StorableGroupEpochMessageSecrets.hasLegacyMessageSecrets env) s
      (fun found t => (found = false → ∀ groupId, ¬HasLegacyRow s.store groupId) ∧
        t.store = s.store) fun _ t => t.store = s.store := by
  refine wp_pooled_reads (Q := fun db found => found = false → ∀ groupId, ¬HasLegacyRow db groupId)
    halone (fun db => ?_) s
  rw [wp_bind, wp_get]
  refine ⟨fun hfound groupId ⟨row, hmem, hversion, _, htype⟩ => ?_, rfl⟩
  have hrow := List.any_eq_false.mp hfound row hmem
  simp [hversion, htype] at hrow

theorem listGroupIds_spec (halone : ∀ t, env.others t = []) (s : Session) :
    wp (StorableGroupEpochMessageSecrets.listGroupIdsWithMessageSecrets (C := C) env
        defaultMigrationBatchSize) s
      (fun ids t => (ids = [] → ∀ groupId, ¬HasLegacyRow s.store groupId) ∧
        t.store = s.store) fun _ t => t.store = s.store := by
  refine wp_pooled_reads (Q := fun db ids => ids = [] → ∀ groupId, ¬HasLegacyRow db groupId)
    halone (fun db => ?_) s
  rw [queryMap, wp_bind, wp_get]
  refine wp_ofResult (fun ids hids => ⟨fun hnil groupId ⟨row, hmem, hversion, _, htype⟩ => ?_, rfl⟩)
    fun _ _ => rfl
  have hempty := map_of_mapM (g := fun _ => ()) (k := fun _ => ()) hids fun _ _ _ _ => rfl
  rw [hnil, List.map_nil, eq_comm, List.map_eq_nil_iff, List.take_eq_nil_iff] at hempty
  have hrow : row ∈ db.groupData.rows.filter fun row =>
      row.providerVersion = storageProviderVersion ∧ row.dataType = .messageSecrets :=
    List.mem_filter.mpr ⟨hmem, decide_eq_true ⟨hversion, htype⟩⟩
  rw [← List.mem_reverse, hempty.resolve_left (by decide)] at hrow
  cases hrow

theorem migrateBatch_moving (hexport : Exports exportSnapshot) (halone : ∀ t, env.others t = [])
    (ids : List (C.Carrier .groupId)) :
    Moving exportSnapshot db (migrateBatch exportSnapshot env ids) := by
  refine (migrateGroups_moving hexport halone ids).bind fun _ s (hs : Moves _ _ _) => ?_
  rw [wp_bind]
  refine wp_mono (hasLegacyMessageSecrets_spec halone s) (fun found t ⟨hfound, ht⟩ => ?_)
    fun _ t ht => (congrArg _ ht).mpr hs
  rw [← ht] at hs hfound
  cases found with
  | true => exact hs
  | false => exact markDone_moves hexport halone hs (hfound rfl)

theorem tryMigrateEpochMessageSecrets_moving (hexport : Exports exportSnapshot)
    (halone : ∀ t, env.others t = []) :
    Moving exportSnapshot db (tryMigrateEpochMessageSecrets exportSnapshot env) := by
  intro s (hs : Moves _ _ _)
  rw [tryMigrateEpochMessageSecrets, wp_bind,
    StorableEpochMigrationState.isLegacyMessageSecretsMigrationDone, wp_bind]
  refine wp_mono (wp_pooled_reads (Q := fun _ _ => True) halone (fun db => ?_) s)
    (fun done t ⟨_, ht⟩ => ?_) fun _ t ht => (congrArg _ ht).mpr hs
  · rw [queryRow, wp_bind, wp_get]
    exact wp_ofResult (fun _ _ => ⟨trivial, rfl⟩) fun _ _ => rfl
  rw [← ht] at hs
  rw [wp_pure]
  refine wp_ite (fun _ => hs) fun _ => ?_
  rw [wp_bind]
  refine wp_mono (listGroupIds_spec halone t) (fun ids u ⟨hids, hu⟩ => ?_)
    fun _ u hu => (congrArg _ hu).mpr hs
  rw [← hu] at hs hids
  refine wp_ite (fun hempty => ?_) fun _ => migrateBatch_moving hexport halone ids u hs
  exact markDone_moves hexport halone hs (hids (List.isEmpty_iff.mp hempty))

/-- **One open** of the provider. -/
theorem new_moves (hexport : Exports exportSnapshot) (halone : ∀ t, env.others t = []) :
    Moving exportSnapshot db (SqliteProvider.new exportSnapshot env) := by
  intro s hs
  rw [SqliteProvider.new, wp_bind, wp_mapError]
  have hreads := wp_pooled_reads (Q := fun _ (_ : Unit) => True) halone (x := pure ())
    (fun _ => ⟨trivial, rfl⟩) s
  refine wp_mono hreads (fun _ t ⟨_, ht⟩ => ?_) fun _ t ht => (congrArg _ ht).mpr hs
  rw [migrateEpochMessageSecrets, wp_bind, wp_attempt]
  refine tryMigrateEpochMessageSecrets_moving hexport halone t ?_
  exact (congrArg _ ht).mpr hs

/-! ## Any number of opens -/

theorem Opens.moves (hexport : Exports exportSnapshot) (h : Opens exportSnapshot db db') :
    Moves exportSnapshot db db' := by
  induction h with
  | none => exact .refl
  | once _ halone hstore ih =>
    subst hstore
    exact final_of_wp (new_moves hexport halone _ ih)

/-- **The migration is safe**: after any number of opens, with failures anywhere, a group that had
an old row still has it and all rows of its epochs, or it has none and the rows of its epochs are
the snapshot; the other groups are left alone, and so are the other tables; and the migration was
marked as done only if no old row was left. -/
theorem secretsMigration_safe (hexport : Exports exportSnapshot)
    (h : Opens exportSnapshot db db') :
    (∀ groupId, HasLegacyRow db groupId →
      HasLegacyRow db' groupId ∧ Untouched groupId db db' ∨
        Migrated exportSnapshot groupId db db') ∧
      (∀ groupId, ¬HasLegacyRow db groupId → Untouched groupId db db') ∧
      SameElsewhere db db' ∧
      (IsMarkedDone db' → IsMarkedDone db ∨ ∀ groupId, ¬HasLegacyRow db' groupId) := by
  have hmoves := h.moves hexport
  refine ⟨fun groupId hrow => ?_, fun groupId hrow => ?_, hmoves.elsewhere, hmoves.marked⟩
  · rcases hmoves.groups groupId with huntouched | ⟨_, hmigrated⟩
    · exact .inl ⟨huntouched.hasLegacyRow_iff.mpr hrow, huntouched⟩
    · exact .inr hmigrated
  · rcases hmoves.groups groupId with huntouched | ⟨hlegacy, _⟩
    · exact huntouched
    · exact absurd hlegacy hrow

/-! ## An open without failures -/

instance : Decidable (IsMarkedDone db) :=
  inferInstanceAs (Decidable (∃ row ∈ db.epochMigrationState.rows, _))

/-- One byte of the old row for each epoch. -/
def exportBytes (db : Database) (id : UInt8) : Except String (Option (List (ℕ × Bytes))) :=
  .ok ((db.groupData.get ([id], .messageSecrets)).bind fun row =>
    if row.providerVersion = storageProviderVersion then
      some (row.groupData.zipIdx.map fun secret => (secret.2, [secret.1]))
    else none)

theorem exportBytes_exports : Exports (C := byteCodec) exportBytes where
  congr {db db' id groupId} hid huntouched := by
    cases hid
    rw [exportBytes, exportBytes, huntouched.groupData]
  legacy {db id groupId snapshot} hid hexported := by
    cases hid
    obtain ⟨row, hget, hrow⟩ := Option.bind_eq_some_iff.mp (Except.ok.inj hexported)
    split_ifs at hrow with hversion
    exact hasLegacyRow_iff.mpr ⟨row, hget, hversion⟩

/-- A group whose secrets of two epochs are in one row. -/
def oneLegacyRow : Database :=
  { Database.empty with
    groupData := Table.empty.insertOrReplace
      { providerVersion := storageProviderVersion, groupId := [1], dataType := .messageSecrets,
        groupData := [7, 8] } }

/-- What the first open makes of it. -/
def oneLegacyRowOpened : Database :=
  (final ((SqliteProvider.new (C := byteCodec) exportBytes .calm).run ⟨oneLegacyRow, (), 0, 0⟩)).store

theorem secretsMigration_safe_oneLegacyRow : Opens (C := byteCodec) exportBytes oneLegacyRow
    oneLegacyRowOpened ∧ IsMarkedDone oneLegacyRowOpened ∧
      ∀ groupId, ¬HasLegacyRow oneLegacyRowOpened groupId := by
  have hopens : Opens (C := byteCodec) exportBytes oneLegacyRow oneLegacyRowOpened :=
    .once .none (fun _ => rfl) rfl
  have hmarked : IsMarkedDone oneLegacyRowOpened := by decide +kernel
  obtain ⟨_, _, _, hdone⟩ := secretsMigration_safe exportBytes_exports hopens
  exact ⟨hopens, hmarked, (hdone hmarked).resolve_left (by decide)⟩

end KChat.Storage
