import Mathlib.Data.Finset.Card
import KChat.Storage.Migration

/-!
# How far the migration of message secrets gets

Nothing fails and nobody else writes: whether an open gets on depends on the tables alone.

* `Succeeds`: the migration of one group on its own; **`succeeds_iff`**.
* `Unblocked`: the migration is not marked as done, the ids of the newest old rows can be decoded,
  and one of them is that of a group whose migration succeeds.
* `reopened`: what one open makes of the tables. `reopened_spec`, `all_migrated`, `iterate_stuck`.
* **`secretsMigration_progress`**, **`not_progress`**: one id that cannot be decoded stops them all.
-/

namespace KChat.Storage

open Lib

variable {C : Codec}
  (exportSnapshot : Database → C.Carrier .groupId → Except String (Option (List (ℕ × Bytes))))
  {db db' : Database} {id : C.Carrier .groupId} {groupId : Bytes}

/-! ## What an open can migrate -/

/-- The tables at the start of a session. -/
def start (db : Database) : Session := { store := db, beside := (), time := 0, seen := 0 }

/-- The migration of one group, and nothing else. -/
def migratedAlone (db : Database) (id : C.Carrier .groupId) : EStateM.Result String Session Unit :=
  (transaction .calm (migrateGroupEpochMessageSecrets exportSnapshot .calm id)).run (start db)

/-- **The migration of the group would succeed**: there is an old row, and on its own the migration
does not fail and leaves none. -/
structure Succeeds (db : Database) (id : C.Carrier .groupId) (groupId : Bytes) : Prop where
  toVec : C.toVec id = .ok groupId
  legacy : HasLegacyRow db groupId
  ok : outcome (migratedAlone exportSnapshot db id) = .ok ()
  gone : ¬HasLegacyRow (final (migratedAlone exportSnapshot db id)).store groupId

/-- The ids of the newest old rows, as an open lists them. -/
def listed (db : Database) : Except String (List (C.Carrier .groupId)) :=
  ((db.groupData.rows.filter fun row => row.providerVersion = storageProviderVersion ∧
    row.dataType = .messageSecrets).reverse.take defaultMigrationBatchSize).mapM
      fun row => C.fromSlice row.groupId

/-- **An open gets on.** -/
structure Unblocked (db : Database) : Prop where
  notDone : ¬IsMarkedDone db
  listed : ∃ ids : List (C.Carrier .groupId), listed db = .ok ids ∧
    ∃ id ∈ ids, ∃ groupId, Succeeds exportSnapshot db id groupId

/-- The tables after an open. -/
def reopened (db : Database) : Database :=
  (final ((SqliteProvider.new exportSnapshot .calm).run (start db))).store

/-! ## One group -/

variable {exportSnapshot}

/-- What the export gives can be stored. -/
structure Exported (exportSnapshot : Database → C.Carrier .groupId →
    Except String (Option (List (ℕ × Bytes)))) (db : Database) (id : C.Carrier .groupId)
    (groupId : Bytes) : Prop where
  toVec : C.toVec id = .ok groupId
  snapshot : ∃ snapshot, exportSnapshot db id = .ok (some snapshot) ∧
    ∀ entry ∈ snapshot, entry.1 < 2 ^ 63

theorem wp_inTx_calm {α : Type} {x : Statement α} {s : Session} {Q : α → Session → Prop}
    {E : String → Session → Prop}
    (h : wp x s.store (fun a db => Q a (Lib.Session.tick { s with store := db }))
      fun e db => E e (Lib.Session.tick { s with store := db })) :
    wp (inTx .calm x) s Q E :=
  wp_inTx (fun _ he => nomatch he) fun _ => h

theorem storeAllInTx_calm (hid : C.toVec id = .ok groupId) (snapshot : List (ℕ × Bytes))
    (s : Session) : wp (StorableGroupEpochMessageSecrets.storeAllInTx .calm id snapshot) s
      (fun _ t => (∀ entry ∈ snapshot, entry.1 < 2 ^ 63) ∧ t.store.groupData = s.store.groupData)
      fun _ _ => ¬∀ entry ∈ snapshot, entry.1 < 2 ^ 63 := by
  induction snapshot generalizing s with
  | nil => exact ⟨fun _ h => (by cases h), rfl⟩
  | cons entry snapshot ih =>
    have hsql : ∀ z, u64ToSql entry.1 = .ok z → entry.1 < 2 ^ 63 := by
      intro z hz
      unfold u64ToSql at hz
      split_ifs at hz with hlt
      exact hlt
    rw [StorableGroupEpochMessageSecrets.storeAllInTx, wp_bind,
      StorableGroupEpochMessageSecrets.storeInTx]
    apply wp_inTx_calm
    rw [hid, wp_bind]
    refine wp_ofResult (fun _ h => ?_) fun _ h => by cases h
    cases h
    rw [wp_bind]
    refine wp_ofResult (fun z hz => ?_) fun e he hall => ?_
    · rw [execute, wp_modify]
      refine wp_mono (ih _) (fun _ t ht => ⟨?_, ht.2⟩) fun _ t ht hall => ?_
      · intro entry' hmem
        rcases List.mem_cons.mp hmem with rfl | hmem
        · exact hsql z hz
        · exact ht.1 entry' hmem
      · exact ht fun entry' hmem => hall entry' (List.mem_cons_of_mem _ hmem)
    · rw [u64ToSql, if_pos (hall entry List.mem_cons_self)] at he
      cases he

/-- **One group** of which nothing is exported, or nothing that can be stored, is left as it is. -/
theorem migrateGroup_calm (id : C.Carrier .groupId) (s : Session) :
    wp (migrateGroupEpochMessageSecrets exportSnapshot .calm id) s
      (fun _ t => (∃ groupId, Exported exportSnapshot s.store id groupId ∧
          ¬HasLegacyRow t.store groupId) ∨
        (∀ groupId, ¬Exported exportSnapshot s.store id groupId) ∧ t.store = s.store)
      fun _ _ => ∀ groupId, ¬Exported exportSnapshot s.store id groupId := by
  rw [migrateGroupEpochMessageSecrets, wp_bind, wp_mapError]
  apply wp_inTx_calm
  rw [wp_bind, wp_get]
  refine wp_ofResult (fun exported hexported => ?_) fun e he groupId h => ?_
  swap
  · obtain ⟨snapshot, hsnapshot, -⟩ := h.snapshot
    rw [he] at hsnapshot
    cases hsnapshot
  cases exported with
  | none =>
    refine .inr ⟨fun groupId h => ?_, rfl⟩
    obtain ⟨snapshot, hsnapshot, -⟩ := h.snapshot
    rw [hexported] at hsnapshot
    cases hsnapshot
  | some snapshot =>
    have hsame : ∀ {groupId}, Exported exportSnapshot s.store id groupId →
        ∀ entry ∈ snapshot, entry.1 < 2 ^ 63 := by
      intro groupId h
      obtain ⟨snapshot', hsnapshot, hlt⟩ := h.snapshot
      rw [hexported] at hsnapshot
      cases hsnapshot
      exact hlt
    rw [wp_mapError, wp_bind, StorableGroupEpochMessageSecrets.replaceInTx, wp_bind,
      StorableGroupEpochMessageSecrets.deleteInTx]
    apply wp_inTx_calm
    rw [wp_bind]
    cases hid : C.toVec id with
    | error e =>
      intro groupId h
      rw [h.toVec] at hid
      cases hid
    | ok groupId =>
      refine wp_ofResult (fun _ h => ?_) fun _ h => by cases h
      cases h
      rw [execute, wp_modify]
      refine wp_mono (storeAllInTx_calm hid snapshot _) (fun _ t ht => ?_)
        fun _ t ht groupId h => ht (hsame h)
      rw [StorableGroupData.deleteGroupDataInTx]
      apply wp_inTx_calm
      rw [hid, wp_bind]
      refine wp_ofResult (fun _ h => ?_) fun _ h => by cases h
      cases h
      refine .inl ⟨groupId, ⟨hid, snapshot, hexported, ht.1⟩, ?_⟩
      rintro ⟨row, hmem, hversion, hrow, htype⟩
      have hkept := (List.mem_filter.mp hmem).2
      simp [hversion, hrow, htype] at hkept

theorem calm_alone (t : ℕ) : (Lib.Surroundings.calm : Surroundings).others t = [] := rfl

/-- One group in its transaction. -/
theorem migrateOne_spec (hexport : Exports exportSnapshot) (id : C.Carrier .groupId) (s : Session) :
    wp (transaction .calm (migrateGroupEpochMessageSecrets exportSnapshot .calm id)) s
      (fun _ t => Moves exportSnapshot s.store t.store ∧
        ((∃ groupId, Exported exportSnapshot s.store id groupId ∧ ¬HasLegacyRow t.store groupId) ∨
          (∀ groupId, ¬Exported exportSnapshot s.store id groupId) ∧ t.store = s.store))
      fun _ t => (∀ groupId, ¬Exported exportSnapshot s.store id groupId) ∧ t.store = s.store := by
  have hstore := Session.await_store_of_alone calm_alone s
  rw [transaction, wp_unowned]
  apply wp_transaction_calm fun _ => rfl
  rw [wp_onWorld]
  have hmoves : wp (migrateGroupEpochMessageSecrets exportSnapshot .calm id)
      (s.await (.calm : Surroundings)).tick _ _ := migrateGroup_moves hexport id _
  have hcalm : wp (migrateGroupEpochMessageSecrets exportSnapshot .calm id)
      (s.await (.calm : Surroundings)).tick _ _ := migrateGroup_calm id _
  rw [Session.tick_store, hstore] at hmoves hcalm
  refine wp_mono (wp_and hmoves hcalm) (fun _ t ht => ht) fun _ t ht => ⟨ht.2, ?_⟩
  rw [Session.rollback_store, hstore]

theorem Exported.congr (hexport : Exports exportSnapshot) (h : Exported exportSnapshot db id groupId)
    (huntouched : Untouched groupId db db') : Exported exportSnapshot db' id groupId where
  toVec := h.toVec
  snapshot := by
    rw [hexport.congr h.toVec huntouched]
    exact h.snapshot

/-- **The migration of a group succeeds** iff its export gives something that can be stored. -/
theorem succeeds_iff (hexport : Exports exportSnapshot) :
    Succeeds exportSnapshot db id groupId ↔ Exported exportSnapshot db id groupId := by
  have hspec := migrateOne_spec hexport id (start db)
  constructor
  · intro h
    cases hrun : migratedAlone exportSnapshot db id with
    | error e t =>
      have hok := h.ok
      rw [hrun] at hok
      cases hok
    | ok u t =>
      have hgone := h.gone
      rw [hrun] at hgone
      obtain ⟨-, ⟨groupId', hexported, -⟩ | ⟨-, hsame⟩⟩ := (wp_of_ok hrun).mp hspec
      · obtain rfl := Except.ok.inj (h.toVec.symm.trans hexported.toVec)
        exact hexported
      · rw [show (final (EStateM.Result.ok u t)).store = db from hsame] at hgone
        exact absurd h.legacy hgone
  · intro h
    obtain ⟨snapshot, hsnapshot, -⟩ := h.snapshot
    have hlegacy : HasLegacyRow db groupId := hexport.legacy h.toVec hsnapshot
    cases hrun : migratedAlone exportSnapshot db id with
    | error e t => exact absurd h (((wp_of_error hrun).mp hspec).1 groupId)
    | ok u t =>
      obtain ⟨-, ⟨groupId', hexported, hgone⟩ | ⟨hnone, -⟩⟩ := (wp_of_ok hrun).mp hspec
      · obtain rfl := Except.ok.inj (h.toVec.symm.trans hexported.toVec)
        exact ⟨h.toVec, hlegacy, by rw [hrun]; rfl, by rw [hrun]; exact hgone⟩
      · exact absurd h (hnone groupId)

/-! ## One open -/

/-- **The groups of the list**, one after the other. -/
theorem migrateGroups_calm (hexport : Exports exportSnapshot) (ids : List (C.Carrier .groupId))
    (s : Session) : wp (migrateGroups exportSnapshot .calm ids) s
      (fun _ t => Moves exportSnapshot s.store t.store ∧
        (∀ id ∈ ids, ∀ groupId, Exported exportSnapshot s.store id groupId →
          ¬HasLegacyRow t.store groupId) ∧
        ((∀ id ∈ ids, ∀ groupId, ¬Exported exportSnapshot s.store id groupId) →
          t.store = s.store))
      fun _ _ => False := by
  induction ids generalizing s with
  | nil => exact ⟨.refl, fun _ h => (nomatch h), fun _ => rfl⟩
  | cons id ids ih =>
    rw [migrateGroups, wp_bind, wp_attempt]
    -- the rest of the list after the first group
    have hrest : ∀ t : Session, Moves exportSnapshot s.store t.store →
        (∀ groupId, Exported exportSnapshot s.store id groupId → ¬HasLegacyRow t.store groupId) →
        ((∀ groupId, ¬Exported exportSnapshot s.store id groupId) → t.store = s.store) →
        wp (migrateGroups exportSnapshot .calm ids) t (fun _ u =>
          Moves exportSnapshot s.store u.store ∧
          (∀ id' ∈ id :: ids, ∀ groupId, Exported exportSnapshot s.store id' groupId →
            ¬HasLegacyRow u.store groupId) ∧
          ((∀ id' ∈ id :: ids, ∀ groupId, ¬Exported exportSnapshot s.store id' groupId) →
            u.store = s.store)) fun _ _ => False := by
      intro t hmoves hfirst hsame
      refine wp_mono (ih t) (fun _ u hu => ⟨hmoves.trans hexport hu.1, ?_, fun hnone => ?_⟩)
        fun _ _ h => h
      · intro id' hmem groupId hexported hlegacy
        have hlegacy' : HasLegacyRow t.store groupId := hu.1.hasLegacyRow hlegacy
        rcases List.mem_cons.mp hmem with rfl | hmem
        · exact hfirst groupId hexported hlegacy'
        · rcases hmoves.groups groupId with huntouched | ⟨-, hmigrated⟩
          · exact hu.2.1 id' hmem groupId (hexported.congr hexport huntouched) hlegacy
          · exact hmigrated.noLegacyRow hlegacy'
      · have ht := hsame (hnone id List.mem_cons_self)
        have hu' := hu.2.2
        rw [ht] at hu'
        exact hu' fun id' hmem => hnone id' (List.mem_cons_of_mem _ hmem)
    refine wp_mono (migrateOne_spec hexport id s) (fun _ t ht => ?_) fun _ t ht => ?_
    · obtain ⟨hmoves, ⟨groupId, hexported, hgone⟩ | ⟨hnone, hsame⟩⟩ := ht
      · refine hrest t hmoves (fun groupId' hexported' => ?_) fun hnone => ?_
        · obtain rfl := Except.ok.inj (hexported.toVec.symm.trans hexported'.toVec)
          exact hgone
        · exact absurd hexported (hnone groupId)
      · exact hrest t hmoves (fun groupId h => absurd h (hnone groupId)) fun _ => hsame
    · have hmoves : Moves exportSnapshot s.store t.store := by
        rw [ht.2]
        exact .refl
      exact hrest t hmoves (fun groupId h => absurd h (ht.1 groupId)) fun _ => ht.2

/-- What an open does to tables that it can get on with, and to tables that it cannot. -/
structure Opened (exportSnapshot : Database → C.Carrier .groupId →
    Except String (Option (List (ℕ × Bytes)))) (db db' : Database) : Prop where
  progress : Unblocked exportSnapshot db →
    ∃ id groupId, Succeeds exportSnapshot db id groupId ∧ ¬HasLegacyRow db' groupId
  stuck : ¬Unblocked exportSnapshot db → (∃ groupId, HasLegacyRow db groupId) → db' = db

theorem migrateBatch_calm (hexport : Exports exportSnapshot) {ids : List (C.Carrier .groupId)}
    {s : Session} (hdone : ¬IsMarkedDone s.store) (hids : listed s.store = .ok ids) :
    wp (migrateBatch exportSnapshot .calm ids) s
      (fun _ t => Opened exportSnapshot s.store t.store)
      fun _ t => Opened exportSnapshot s.store t.store := by
  rw [migrateBatch, wp_bind]
  refine wp_mono (migrateGroups_calm hexport ids s) (fun _ t ht => ?_) fun _ _ h => h.elim
  obtain ⟨-, hgone, hsame⟩ := ht
  have hopened : ∀ u : Session, Moves exportSnapshot t.store u.store →
      ((∃ groupId, HasLegacyRow t.store groupId) → u.store = t.store) →
      Opened exportSnapshot s.store u.store := by
    intro u hmoves hrest
    constructor
    · intro hunblocked
      obtain ⟨ids', hids', id, hmem, groupId, hsucceeds⟩ := hunblocked.listed
      rw [hids] at hids'
      cases hids'
      have hexported := (succeeds_iff hexport).mp hsucceeds
      have ht := hgone id hmem groupId hexported
      exact ⟨id, groupId, hsucceeds, fun hrow => ht (hmoves.hasLegacyRow hrow)⟩
    · intro hblocked hlegacy
      have ht : t.store = s.store := by
        apply hsame
        intro id hmem groupId hexported
        have hsucceeds := (succeeds_iff hexport).mpr hexported
        exact hblocked ⟨hdone, ids, hids, id, hmem, groupId, hsucceeds⟩
      rw [← ht] at hlegacy
      exact (hrest hlegacy).trans ht
  have hunchanged : ∀ u : Session, u.store = t.store → Opened exportSnapshot s.store u.store := by
    intro u hu
    apply hopened u
    · rw [hu]
      exact .refl
    · exact fun _ => hu
  rw [wp_bind]
  refine wp_mono (hasLegacyMessageSecrets_spec calm_alone t) (fun found u hu => ?_)
    fun _ u hu => hunchanged u hu
  obtain ⟨hfound, hu⟩ := hu
  cases found with
  | true => exact hunchanged u hu
  | false =>
    have hnone := hfound rfl
    rw [← hu] at hnone
    have hmark := markDone_moves hexport calm_alone (s := u) .refl hnone
    rw [hu] at hnone hmark
    refine wp_mono hmark (fun _ v hv => ?_) fun _ v hv => ?_
    · exact hopened v hv fun ⟨groupId, hrow⟩ => absurd hrow (hnone groupId)
    · exact hopened v hv fun ⟨groupId, hrow⟩ => absurd hrow (hnone groupId)

theorem isMarkedDone_iff : IsMarkedDone db ↔
    (((db.epochMigrationState.rows.filter fun row =>
      row.providerVersion = storageProviderVersion).head?.map
        (·.legacyMessageSecretsMigrationDone)).getD 0 ≠ 0) := by
  cases hget : db.epochMigrationState.get storageProviderVersion with
  | some row =>
    rw [Table.filter_key hget, List.head?_cons, Option.map_some, Option.getD_some]
    constructor
    · rintro ⟨row', hmem, hversion, hdone⟩
      have hget' := Table.mem_rows_iff.mp hmem
      rw [hversion, hget] at hget'
      cases hget'
      exact hdone
    · intro hdone
      obtain ⟨hmem, hversion⟩ := Table.get_eq_some_iff.mp hget
      exact ⟨row, hmem, hversion, hdone⟩
  | none =>
    have hnone : ∀ row ∈ db.epochMigrationState.rows,
        row.providerVersion ≠ storageProviderVersion := by
      intro row hmem hversion
      have hget' := Table.mem_rows_iff.mp hmem
      rw [hversion, hget] at hget'
      cases hget'
    have hempty : (db.epochMigrationState.rows.filter fun row =>
        row.providerVersion = storageProviderVersion) = [] := by
      simpa [List.filter_eq_nil_iff] using hnone
    rw [hempty]
    constructor
    · rintro ⟨row, hmem, hversion, -⟩
      exact absurd hversion (hnone row hmem)
    · intro h
      exact absurd rfl h

theorem wp_reads_calm {α : Type} {x : Statement α} {s : Session} {Q : α → Prop} {E : String → Prop}
    (h : wp x s.store (fun a db => Q a ∧ db = s.store) fun e db => E e ∧ db = s.store) :
    wp (pooled .calm x) s (fun a t => Q a ∧ t.store = s.store) fun e t => E e ∧ t.store = s.store := by
  have hstore := Session.await_store_of_alone calm_alone s
  rw [wp_pooled]
  apply wp_inTx_calm
  rw [hstore]
  exact h

theorem isDone_calm (s : Session) :
    wp (StorableEpochMigrationState.isLegacyMessageSecretsMigrationDone .calm) s
      (fun done t => (done = true ↔ IsMarkedDone s.store) ∧ t.store = s.store) fun _ _ => False := by
  rw [StorableEpochMigrationState.isLegacyMessageSecretsMigrationDone, wp_bind]
  have hread : wp (pooled .calm (queryRow (fun db => db.epochMigrationState.rows.filter fun row =>
      row.providerVersion = storageProviderVersion)
      fun row => .ok row.legacyMessageSecretsMigrationDone)) s
      (fun done t => done = ((s.store.epochMigrationState.rows.filter fun row =>
        row.providerVersion = storageProviderVersion).head?.map
          (·.legacyMessageSecretsMigrationDone)) ∧ t.store = s.store)
      fun _ t => False ∧ t.store = s.store := by
    apply wp_reads_calm
    rw [queryRow, wp_bind, wp_get]
    cases (s.store.epochMigrationState.rows.filter fun row =>
      row.providerVersion = storageProviderVersion).head? with
    | none => exact ⟨rfl, rfl⟩
    | some row => exact ⟨rfl, rfl⟩
  refine wp_mono hread (fun done t ht => ?_) fun _ _ h => h.1
  refine ⟨?_, ht.2⟩
  rw [isMarkedDone_iff, ht.1]
  exact decide_eq_true_iff

theorem listGroupIds_calm (s : Session) :
    wp (StorableGroupEpochMessageSecrets.listGroupIdsWithMessageSecrets (C := C) .calm
      defaultMigrationBatchSize) s (fun ids t => listed s.store = .ok ids ∧ t.store = s.store)
      fun e t => listed (C := C) s.store = .error e ∧ t.store = s.store := by
  apply wp_reads_calm
  rw [queryMap, wp_bind, wp_get]
  exact wp_ofResult (fun ids hids => ⟨hids, rfl⟩) fun e he => ⟨he, rfl⟩

theorem tryMigrate_calm (hexport : Exports exportSnapshot) (s : Session) :
    wp (tryMigrateEpochMessageSecrets exportSnapshot .calm) s
      (fun _ t => Opened exportSnapshot s.store t.store)
      fun _ t => Opened exportSnapshot s.store t.store := by
  have hblocked : ∀ t : Session, t.store = s.store → ¬Unblocked exportSnapshot s.store →
      Opened exportSnapshot s.store t.store :=
    fun _ ht h => ⟨fun h' => absurd h' h, fun _ _ => ht⟩
  rw [tryMigrateEpochMessageSecrets, wp_bind]
  refine wp_mono (isDone_calm s) (fun done t ht => ?_) fun _ _ h => h.elim
  obtain ⟨hdone, ht⟩ := ht
  refine wp_ite (fun h => ?_) fun h => ?_
  · exact hblocked t ht fun hunblocked => hunblocked.notDone (hdone.mp h)
  have hnotDone : ¬IsMarkedDone s.store := fun hmarked => h (hdone.mpr hmarked)
  rw [wp_bind]
  refine wp_mono (wp_and (listGroupIds_spec calm_alone t) (listGroupIds_calm t))
    (fun ids u hu => ?_) fun e u hu => ?_
  · obtain ⟨⟨hempty, -⟩, hids, hu⟩ := hu
    rw [ht] at hids hempty hu
    refine wp_ite (fun hnil => ?_) fun _ => ?_
    · rw [List.isEmpty_iff] at hnil
      have hnone := hempty hnil
      have hmark := markDone_moves hexport calm_alone (s := u) .refl (by rwa [hu])
      have hopened : ∀ v : Session, Opened exportSnapshot s.store v.store := by
        intro v
        constructor
        · intro hunblocked
          obtain ⟨ids', hids', id, hmem, -⟩ := hunblocked.listed
          rw [hids, hnil] at hids'
          cases hids'
          cases hmem
        · rintro - ⟨groupId, hrow⟩
          exact absurd hrow (hnone groupId)
      exact wp_mono hmark (fun _ v _ => hopened v) fun _ v _ => hopened v
    · have hbatch : _ → listed u.store = .ok ids → _ := migrateBatch_calm hexport
      rw [hu] at hbatch
      exact hbatch hnotDone hids
  · obtain ⟨-, he, hu⟩ := hu
    rw [ht] at he hu
    apply hblocked u hu
    intro hunblocked
    obtain ⟨ids, hids, -⟩ := hunblocked.listed
    rw [he] at hids
    cases hids

/-- **One open** without failures. -/
theorem reopened_spec (hexport : Exports exportSnapshot) (db : Database) :
    Moves exportSnapshot db (reopened exportSnapshot db) ∧
      Opened exportSnapshot db (reopened exportSnapshot db) := by
  have hmoves := new_moves hexport calm_alone (start db) (.refl : Moves exportSnapshot db db)
  have hopened : wp (SqliteProvider.new exportSnapshot .calm) (start db)
      (fun _ t => Opened exportSnapshot db t.store) fun _ t => Opened exportSnapshot db t.store := by
    rw [SqliteProvider.new, wp_bind, wp_mapError]
    have hreads : wp (runMigrations .calm) (start db) (fun _ t => True ∧ t.store = db)
        fun _ t => False ∧ t.store = db := by
      apply wp_reads_calm
      exact ⟨trivial, rfl⟩
    refine wp_mono hreads (fun _ t ht => ?_) fun _ _ h => h.1.elim
    have htry := tryMigrate_calm hexport t
    rw [ht.2] at htry
    rw [migrateEpochMessageSecrets, wp_bind, wp_attempt]
    exact htry
  exact ⟨final_of_wp hmoves, final_of_wp hopened⟩

/-! ## Any number of opens -/

/-- The groups that have an old row. -/
def legacyIds (db : Database) : Finset Bytes :=
  ((db.groupData.rows.filter fun row => row.providerVersion = storageProviderVersion ∧
    row.dataType = .messageSecrets).map (·.groupId)).toFinset

theorem mem_legacyIds : groupId ∈ legacyIds db ↔ HasLegacyRow db groupId := by
  simp only [legacyIds, List.mem_toFinset, List.mem_map, List.mem_filter, decide_eq_true_eq,
    HasLegacyRow]
  constructor
  · rintro ⟨row, ⟨hmem, hversion, htype⟩, hrow⟩
    exact ⟨row, hmem, hversion, hrow, htype⟩
  · rintro ⟨row, hmem, hversion, hrow, htype⟩
    exact ⟨row, ⟨hmem, hversion, htype⟩, hrow⟩

theorem Untouched.symm (h : Untouched groupId db db') : Untouched groupId db' db where
  groupData dataType := (h.groupData dataType).symm
  epochSecrets version epoch := (h.epochSecrets version epoch).symm

/-- A group that could be migrated either still can be, or has been. -/
theorem Succeeds.moves (hexport : Exports exportSnapshot) (hmoves : Moves exportSnapshot db db')
    (h : Succeeds exportSnapshot db id groupId) :
    Succeeds exportSnapshot db' id groupId ∨ ¬HasLegacyRow db' groupId := by
  rw [succeeds_iff hexport] at h ⊢
  rcases hmoves.groups groupId with huntouched | ⟨-, hmigrated⟩
  · exact .inl (h.congr hexport huntouched)
  · exact .inr hmigrated.noLegacyRow

/-- A group that can be migrated could be from the beginning. -/
theorem Succeeds.of_moves (hexport : Exports exportSnapshot) (hmoves : Moves exportSnapshot db db')
    (h : Succeeds exportSnapshot db' id groupId) : Succeeds exportSnapshot db id groupId := by
  have hlegacy := h.legacy
  rw [succeeds_iff hexport] at h ⊢
  rcases hmoves.groups groupId with huntouched | ⟨-, hmigrated⟩
  · exact h.congr hexport huntouched.symm
  · exact absurd hlegacy hmigrated.noLegacyRow

theorem iterate_moves (hexport : Exports exportSnapshot) (db : Database) (n : ℕ) :
    Moves exportSnapshot db ((reopened exportSnapshot)^[n] db) := by
  induction n with
  | zero => exact .refl
  | succ n ih =>
    rw [Function.iterate_succ_apply']
    exact ih.trans hexport (reopened_spec hexport _).1

/-- An open that gets on leaves fewer groups with an old row. -/
theorem reopened_card (hexport : Exports exportSnapshot) (h : Unblocked exportSnapshot db) :
    (legacyIds (reopened exportSnapshot db)).card < (legacyIds db).card := by
  obtain ⟨hmoves, hopened⟩ := reopened_spec hexport db
  obtain ⟨id, groupId, hsucceeds, hgone⟩ := hopened.progress h
  apply Finset.card_lt_card
  rw [Finset.ssubset_iff_of_subset]
  · exact ⟨groupId, mem_legacyIds.mpr hsucceeds.legacy, fun hmem => hgone (mem_legacyIds.mp hmem)⟩
  · intro groupId' hmem
    rw [mem_legacyIds] at hmem ⊢
    exact hmoves.hasLegacyRow hmem

/-- **As long as every open gets on**, all that can be migrated is, sooner or later. -/
theorem all_migrated (hexport : Exports exportSnapshot) (db : Database)
    (h : ∀ n, (∃ id groupId, Succeeds exportSnapshot ((reopened exportSnapshot)^[n] db) id groupId) →
      Unblocked exportSnapshot ((reopened exportSnapshot)^[n] db)) :
    ∃ n, ∀ id groupId, Succeeds exportSnapshot db id groupId →
      ¬HasLegacyRow ((reopened exportSnapshot)^[n] db) groupId := by
  -- by the number of groups with an old row
  induction hcard : (legacyIds db).card using Nat.strong_induction_on generalizing db with
  | _ k ih =>
    by_cases hsome : ∃ id groupId, Succeeds exportSnapshot db id groupId
    · have hlt : _ < (legacyIds db).card := reopened_card hexport (h 0 hsome)
      rw [hcard] at hlt
      obtain ⟨n, hn⟩ := ih _ hlt (reopened exportSnapshot db) (fun n => h (n + 1)) rfl
      refine ⟨n + 1, fun id groupId hsucceeds hrow => ?_⟩
      have hmoves := iterate_moves hexport (reopened exportSnapshot db) n
      rcases hsucceeds.moves hexport (reopened_spec hexport db).1 with hstill | hgone
      · exact hn id groupId hstill hrow
      · exact hgone (hmoves.hasLegacyRow hrow)
    · exact ⟨0, fun id groupId hsucceeds => absurd ⟨id, groupId, hsucceeds⟩ hsome⟩

/-- An open that changes nothing never will. -/
theorem iterate_stuck (h : reopened exportSnapshot db = db) (n : ℕ) :
    (reopened exportSnapshot)^[n] db = db :=
  Function.iterate_fixed h n

/-- **If everything is migrated at some time**, every open until then gets on. -/
theorem unblocked_of_all_migrated (hexport : Exports exportSnapshot) (db : Database) {n : ℕ}
    (hn : ∀ id groupId, Succeeds exportSnapshot db id groupId →
      ¬HasLegacyRow ((reopened exportSnapshot)^[n] db) groupId) {m : ℕ}
    (hm : Succeeds exportSnapshot ((reopened exportSnapshot)^[m] db) id groupId) :
    Unblocked exportSnapshot ((reopened exportSnapshot)^[m] db) := by
  have hgone := hn id groupId (hm.of_moves hexport (iterate_moves hexport db m))
  by_contra hblocked
  have hstuck := (reopened_spec hexport _).2.stuck hblocked ⟨groupId, hm.legacy⟩
  rcases Nat.le_total n m with hle | hle
  · obtain ⟨k, rfl⟩ := Nat.exists_eq_add_of_le' hle
    have hlegacy := hm.legacy
    rw [Function.iterate_add_apply] at hlegacy
    exact hgone ((iterate_moves hexport _ k).hasLegacyRow hlegacy)
  · obtain ⟨k, rfl⟩ := Nat.exists_eq_add_of_le' hle
    rw [Function.iterate_add_apply, iterate_stuck hstuck] at hgone
    exact hgone hm.legacy

/-- **The migration makes progress** exactly as far as its opens are not blocked: an open migrates a
group that can be iff it is not blocked, and some number of opens migrates every group that can be
iff none of them is blocked while such a group is left. -/
theorem secretsMigration_progress (hexport : Exports exportSnapshot) (db : Database) :
    ((∃ id groupId, Succeeds exportSnapshot db id groupId ∧
        ¬HasLegacyRow (reopened exportSnapshot db) groupId) ↔ Unblocked exportSnapshot db) ∧
      ((∃ n, ∀ id groupId, Succeeds exportSnapshot db id groupId →
          ¬HasLegacyRow ((reopened exportSnapshot)^[n] db) groupId) ↔
        ∀ n, (∃ id groupId,
            Succeeds exportSnapshot ((reopened exportSnapshot)^[n] db) id groupId) →
          Unblocked exportSnapshot ((reopened exportSnapshot)^[n] db)) := by
  have hopened := (reopened_spec hexport db).2
  constructor
  · constructor
    · rintro ⟨id, groupId, hsucceeds, hgone⟩
      by_contra hblocked
      rw [hopened.stuck hblocked ⟨groupId, hsucceeds.legacy⟩] at hgone
      exact hgone hsucceeds.legacy
    · exact hopened.progress
  · constructor
    · rintro ⟨n, hn⟩ m ⟨id, groupId, hm⟩
      exact unblocked_of_all_migrated hexport db hn hm
    · exact all_migrated hexport db

instance : Decidable (HasLegacyRow db groupId) :=
  inferInstanceAs (Decidable (∃ row ∈ db.groupData.rows, _))

theorem succeeds_oneLegacyRow :
    Succeeds (C := byteCodec) exportBytes oneLegacyRow 1 [1] where
  toVec := rfl
  legacy := by decide
  ok := by decide +kernel
  gone := by decide +kernel

theorem unblocked_oneLegacyRow : Unblocked (C := byteCodec) exportBytes oneLegacyRow where
  notDone := by decide
  listed := ⟨[1], rfl, 1, List.mem_singleton_self 1, [1], succeeds_oneLegacyRow⟩

theorem secretsMigration_progress_oneLegacyRow :
    ∃ id groupId, Succeeds (C := byteCodec) exportBytes oneLegacyRow id groupId ∧
      ¬HasLegacyRow (reopened (C := byteCodec) exportBytes oneLegacyRow) groupId :=
  (secretsMigration_progress exportBytes_exports oneLegacyRow).1.mpr unblocked_oneLegacyRow

/-- A newer row whose id is no id. -/
def blockedLegacyRow : Database :=
  { oneLegacyRow with
    groupData := oneLegacyRow.groupData.insertOrReplace
      { providerVersion := storageProviderVersion, groupId := [], dataType := .messageSecrets,
        groupData := [] } }

/-- The id of one group cannot be decoded, and another one, which could be migrated, is not. -/
theorem not_progress : ¬∀ db : Database,
    (∃ id groupId, Succeeds (C := byteCodec) exportBytes db id groupId) →
      ∃ id groupId, Succeeds (C := byteCodec) exportBytes db id groupId ∧
        ¬HasLegacyRow (reopened (C := byteCodec) exportBytes db) groupId := by
  intro h
  have hsucceeds : Succeeds (C := byteCodec) exportBytes blockedLegacyRow 1 [1] :=
    { toVec := rfl
      legacy := by decide
      ok := by decide +kernel
      gone := by decide +kernel }
  have hrows : (reopened (C := byteCodec) exportBytes blockedLegacyRow).groupData.rows =
      blockedLegacyRow.groupData.rows := by
    decide +kernel
  obtain ⟨id, groupId, hid, hgone⟩ := h blockedLegacyRow ⟨1, [1], hsucceeds⟩
  obtain ⟨row, hmem, hrow⟩ := hid.legacy
  rw [← hrows] at hmem
  exact hgone ⟨row, hmem, hrow⟩

end KChat.Storage
