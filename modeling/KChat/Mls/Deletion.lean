import KChat.Mls.Frame
import KChat.Mls.PlainMessages

/-!
# Two ways to delete a group

`UqMls::delete_group` deletes the rows of a group table by table, and its status. A batch deletes a
group that was never confirmed through OpenMLS, and its status, and then it writes a status.

* `Erased`: nothing of a group is left. `UqMls.deleteGroup`; **`deleteGroup_erased`**.
* `StatusesWritten`: the statuses that a batch writes after deletions are written.
* **`not_erased`**, **`decryptedMessages_kept`**: what a batch deletes is not erased.
-/

namespace KChat.Mls

open Lib

open Storage (Codec Database)

variable {M : OpenMls} {C : Codec} (K : KeyStore M C) (env : Surroundings M)

/-! ## Nothing is left -/

def HasStatus (groupId : String) (statuses : GroupStatuses) : Prop :=
  ∃ row ∈ statuses, row.1 = groupId

/-- No table has a row of the group. -/
structure NoRows (tables : Database) (groupId : Bytes) : Prop where
  groupData : ∀ row ∈ tables.groupData.rows,
    ¬(row.providerVersion = Storage.storageProviderVersion ∧ row.groupId = groupId)
  epochKeysPairs : ∀ row ∈ tables.epochKeysPairs.rows,
    ¬(row.providerVersion = Storage.storageProviderVersion ∧ row.groupId = groupId)
  ownLeafNodes : ∀ row ∈ tables.ownLeafNodes,
    ¬(row.providerVersion = Storage.storageProviderVersion ∧ row.groupId = groupId)
  proposals : ∀ row ∈ tables.proposals.rows,
    ¬(row.providerVersion = Storage.storageProviderVersion ∧ row.groupId = groupId)
  groupEpochMessageSecrets : ∀ row ∈ tables.groupEpochMessageSecrets.rows,
    ¬(row.providerVersion = Storage.storageProviderVersion ∧ row.groupId = groupId)
  decryptedApplicationMessages : ∀ row ∈ tables.decryptedApplicationMessages.rows,
    ¬(row.providerVersion = Storage.storageProviderVersion ∧ row.groupId = groupId)

/-- **Nothing of the group is left.** -/
structure Erased (groupId : String) (s : Session M) : Prop where
  noRows : ∀ bytes, C.toVec (K.groupId groupId) = .ok bytes → NoRows (K.tables s.store) bytes
  noStatus : ¬HasStatus groupId s.beside

/-! ## Deleting by id -/

def deleteRows (groupId : String) : EStateM String (Session M) Unit :=
  unowned (Lib.transaction env id (onWorld
    (onTables K (Storage.deleteGroupById env.onTables (K.groupId groupId)))))

/-- After a failure that a damaged page may cause, a fresh connection tries once more;
`recoverable` says which failures these are. -/
def SqliteProvider.deleteGroup (recoverable : String → Bool) (groupId : String) :
    EStateM String (Session M) Unit := do
  match ← attempt (deleteRows K env groupId) with
  | .ok () => return ()
  | .error error =>
    if recoverable error then
      mapError (fun cleanupError => "delete_group MLS transaction: " ++ error ++
        "; isolated cleanup: " ++ cleanupError) (deleteRows K env groupId)
    else throw ("delete_group MLS transaction: " ++ error)

def UqMls.deleteGroup (recoverable : String → Bool) (groupId : String) : Action M Unit := do
  mapError .sqlite (SqliteProvider.deleteGroup K env recoverable groupId)
  deleteGroupStatus env groupId

/-! ## Deletions of a batch -/

def StatusWritten (groupId : String) (s : Session M) : Prop :=
  ∀ s', (removeGroup env groupId).run s = .ok () s' → env.fault s'.time = none

def BatchStatusWritten (args : AllMessagesOfGroupArgs) (s : Session M) : Prop :=
  ∀ existing s₁ row s₂,
    (loadGroupWithEpochMessageSecrets env args.groupId (preloadEpochs args.messages)).run s =
      .ok existing s₁ →
    (getGroupPendingOperation env args.groupId).run s₁ = .ok row s₂ →
    StatusWritten env args.groupId s₂

/-- **The statuses are written** after all deletions of the batches. -/
def StatusesWritten (config : M.JoinConfig) : List AllMessagesOfGroupArgs → Session M → Prop
  | [], _ => True
  | args :: rest, s => BatchStatusWritten env args s ∧
    ∀ r s', (processGroup env config args).run s = .ok r s' → StatusesWritten config rest s'

/-! ## What deleting by id leaves -/

/-- The tables without the rows of a group. -/
def withoutGroup (groupId : Bytes) (tables : Database) : Database :=
  { tables with
    groupData := tables.groupData.deleteWhere fun row =>
      row.providerVersion = Storage.storageProviderVersion ∧ row.groupId = groupId
    epochKeysPairs := tables.epochKeysPairs.deleteWhere fun row =>
      row.providerVersion = Storage.storageProviderVersion ∧ row.groupId = groupId
    ownLeafNodes := tables.ownLeafNodes.filter fun row =>
      !decide (row.providerVersion = Storage.storageProviderVersion ∧ row.groupId = groupId)
    proposals := tables.proposals.deleteWhere fun row =>
      row.providerVersion = Storage.storageProviderVersion ∧ row.groupId = groupId
    groupEpochMessageSecrets := tables.groupEpochMessageSecrets.deleteWhere fun row =>
      row.providerVersion = Storage.storageProviderVersion ∧ row.groupId = groupId
    decryptedApplicationMessages := tables.decryptedApplicationMessages.deleteWhere fun row =>
      row.providerVersion = Storage.storageProviderVersion ∧ row.groupId = groupId }

section byId

variable {K} {env}

theorem wp_statement {env : Storage.Surroundings} {id : C.Carrier .groupId} {bytes : Bytes}
    (hid : C.toVec id = .ok bytes) {f : Bytes → Database → Database} {s : Storage.Session}
    {Q : Unit → Storage.Session → Prop}
    (h : Q () (Lib.Session.tick { s with store := f bytes s.store })) :
    wp (Storage.inTx env do
      let groupId ← ofResult (C.toVec id)
      Storage.execute (f groupId)) s Q fun _ _ => True := by
  refine Storage.wp_inTx (fun _ _ => trivial) fun _ => ?_
  rw [hid, wp_bind]
  refine wp_ofResult (fun _ h' => ?_) fun _ _ => trivial
  cases h'
  exact h

theorem not_of_mem_filter {α : Type} {l : List α} {p : α → Prop} [DecidablePred p] {row : α}
    (h : row ∈ l.filter fun row => !decide (p row)) : ¬p row := by
  have hkept := (List.mem_filter.mp h).2
  simpa using hkept

theorem deleteGroupById_store {env : Storage.Surroundings} (id : C.Carrier .groupId)
    (s : Storage.Session) : wp (Storage.deleteGroupById env id) s
      (fun _ t => ∃ bytes, C.toVec id = .ok bytes ∧ t.store = withoutGroup bytes s.store)
      fun _ _ => True := by
  cases hid : C.toVec id with
  | error e =>
    rw [Storage.deleteGroupById, wp_bind]
    refine Storage.wp_inTx (fun _ _ => trivial) fun _ => ?_
    rw [hid]
    trivial
  | ok bytes =>
    rw [Storage.deleteGroupById, wp_bind]
    refine wp_statement hid ?_
    rw [wp_bind]
    refine wp_statement hid ?_
    rw [wp_bind]
    refine wp_statement hid ?_
    rw [wp_bind]
    refine wp_statement hid ?_
    rw [wp_bind]
    refine wp_statement hid ?_
    exact wp_statement hid ⟨bytes, rfl, rfl⟩

theorem withoutGroup_noRows (bytes : Bytes) (tables : Database) :
    NoRows (withoutGroup bytes tables) bytes where
  groupData _ := not_of_mem_filter
  epochKeysPairs _ := not_of_mem_filter
  ownLeafNodes _ := not_of_mem_filter
  proposals _ := not_of_mem_filter
  groupEpochMessageSecrets _ := not_of_mem_filter
  decryptedApplicationMessages _ := not_of_mem_filter

/-- The rows are gone when the transaction commits. -/
theorem deleteRows_noRows (hK : K.Lawful) (groupId : String) (s : Session M) :
    wp (deleteRows K env groupId) s (fun _ t => ∀ bytes, C.toVec (K.groupId groupId) = .ok bytes →
      NoRows (K.tables t.store) bytes) fun _ _ => True := by
  rw [deleteRows, wp_unowned]
  refine Lib.wp_transaction (fun _ _ => trivial) fun _ => ?_
  rw [wp_onWorld, wp_onTables]
  refine wp_mono (deleteGroupById_store _ _) (fun _ t ⟨bytes, hid, ht⟩ => ?_) fun _ _ _ => trivial
  refine ⟨fun _ _ => trivial, fun _ bytes' hid' => ?_⟩
  obtain rfl := Except.ok.inj (hid.symm.trans hid')
  rw [Session.tick_store, Session.commit_store, KeyStore.put_store, hK.tables_withTables, ht]
  exact withoutGroup_noRows _ _

theorem deleteGroup_erased (hK : K.Lawful) (recoverable : String → Bool) (groupId : String)
    (s : Session M) : wp (UqMls.deleteGroup K env recoverable groupId) s
      (fun _ t => Erased K groupId t) fun _ _ => True := by
  have hrows : ∀ s : Session M, wp (SqliteProvider.deleteGroup K env recoverable groupId) s
      (fun _ t => ∀ bytes, C.toVec (K.groupId groupId) = .ok bytes →
        NoRows (K.tables t.store) bytes) fun _ _ => True := by
    intro s
    rw [SqliteProvider.deleteGroup, wp_bind, wp_attempt]
    refine wp_mono (deleteRows_noRows hK groupId s) (fun _ t ht => ht) fun e t _ => ?_
    refine wp_ite (fun _ => ?_) fun _ => trivial
    rw [wp_mapError]
    exact deleteRows_noRows hK groupId t
  rw [UqMls.deleteGroup, wp_bind, wp_mapError]
  refine wp_mono (hrows s) (fun _ t ht => ?_) fun _ _ _ => trivial
  refine wp_useStatuses (fun _ _ => trivial) fun _ => ⟨ht, ?_⟩
  rintro ⟨row, hrow, rfl⟩
  have hkept := (List.mem_filter.mp hrow).2
  simp at hkept

end byId

/-! ## What a batch leaves -/

section batch

variable {env} {groupId : String} {statuses : GroupStatuses}

/-- A status that is written is there, and no other status is lost. -/
theorem hasStatus_insert (op : GroupPendingOperation) {other : String}
    (h : other = groupId ∨ HasStatus other statuses) :
    HasStatus other ((groupId, op.toRow) :: statuses.filter (·.1 != groupId)) := by
  by_cases hother : other = groupId
  · exact ⟨_, List.mem_cons_self, hother.symm⟩
  · obtain ⟨row, hmem, rfl⟩ := h.resolve_left hother
    refine ⟨row, List.mem_cons_of_mem _ (List.mem_filter.mpr ⟨hmem, ?_⟩), rfl⟩
    simpa using hother

theorem hasStatus_filter {other : String} (hother : other ≠ groupId)
    (h : HasStatus other statuses) : HasStatus other (statuses.filter (·.1 != groupId)) := by
  obtain ⟨row, hmem, rfl⟩ := h
  exact ⟨row, List.mem_filter.mpr ⟨hmem, by simpa using hother⟩, rfl⟩

/-- A method on a loaded group writes no status. -/
theorem changeGroup_beside (id : String) {change : GroupAction M Unit}
    (hchange : ∀ b, GroupKeeping (fun _ => True) b change) (s : Session M) :
    wp (changeGroup env id change) s (fun _ t => t.beside = s.beside)
      fun _ t => t.beside = s.beside := by
  refine wp_mono (changeGroup_holds (P := fun _ => True) (b := s.beside)
    (fun _ _ _ _ _ => trivial) id (hchange s.beside) s ⟨trivial, rfl⟩) (fun _ _ h => h.2)
    fun _ _ h => h.2

theorem settleBy_change_hasStatus {args : AllMessagesOfGroupArgs} {change : GroupAction M Unit}
    (hchange : ∀ b, GroupKeeping (fun _ => True) b change) (s : Session M) :
    wp (do
      let g ← some <$> changeGroup env args.groupId change
      let _ ← attempt (insertOrUpdateGroupStatus env args.groupId .none)
      return g) s (fun g t => g.isSome ∧ ∀ other, HasStatus other s.beside → HasStatus other t.beside)
      fun _ _ => True := by
  rw [wp_bind, map_eq_pure_bind, wp_bind]
  refine wp_mono (changeGroup_beside args.groupId hchange s) (fun g t ht => ?_) fun _ _ _ => trivial
  rw [wp_pure, wp_bind, wp_attempt]
  refine wp_useStatuses (fun _ _ => ⟨rfl, fun other h => ?_⟩) fun _ => ⟨rfl, fun other h => ?_⟩
  · rw [Session.tick_beside, ht]
    exact h
  · rw [← ht] at h
    exact hasStatus_insert .none (.inr h)

/-- A deletion loses the status of its group at most. -/
theorem removeGroup_hasStatus (id : String) (s : Session M) : wp (removeGroup env id) s
    (fun _ t => ∀ other, other ≠ id → HasStatus other s.beside → HasStatus other t.beside)
    fun _ _ => True := by
  rw [removeGroup, wp_bind]
  refine wp_mono (changeGroup_beside id (fun _ => use_holds fun _ _ _ => trivial) s)
    (fun g t ht => ?_) fun _ _ _ => trivial
  rw [wp_bind, wp_attempt]
  refine wp_useStatuses (fun _ _ other hother h => ?_) fun _ other hother h => ?_
  · rw [Session.tick_beside, ht]
    exact h
  · rw [← ht] at h
    exact hasStatus_filter hother h

/-- **After a deletion the status is written**: no status is lost, and the group has one. -/
theorem settleBy_remove_hasStatus {args : AllMessagesOfGroupArgs} {existing : M.Group}
    {s : Session M} (hwritten : StatusWritten env args.groupId s) :
    wp (settleBy env args existing .remove) s (fun _ t => HasStatus args.groupId t.beside ∧
      ∀ other, HasStatus other s.beside → HasStatus other t.beside) fun _ _ => True := by
  rw [settleBy, wp_bind, map_eq_pure_bind, wp_bind]
  cases hrun : (removeGroup env args.groupId).run s with
  | error e t => exact (wp_of_error hrun).mpr trivial
  | ok a t =>
    have hothers := (wp_of_ok hrun).mp (removeGroup_hasStatus args.groupId s)
    refine (wp_of_ok hrun).mpr ?_
    rw [wp_pure, wp_bind, wp_attempt]
    refine wp_useStatuses (fun e he => ?_) fun _ => ⟨?_, fun other h => ?_⟩
    · rw [hwritten t hrun] at he
      cases he
    · exact hasStatus_insert .none (.inl rfl)
    · by_cases hother : other = args.groupId
      · exact hasStatus_insert .none (.inl hother)
      · exact hasStatus_insert .none (.inr (hothers other hother h))

theorem settlePending_hasStatus {args : AllMessagesOfGroupArgs} (existing : M.Group)
    (ownMemberId : String) (op : GroupPendingOperation) {s : Session M}
    (hwritten : StatusWritten env args.groupId s) :
    wp (settlePending env args existing ownMemberId op) s
      (fun g t => (g = none → HasStatus args.groupId t.beside) ∧
        ∀ other, HasStatus other s.beside → HasStatus other t.beside) fun _ _ => True := by
  have hsome : ∀ {g : Option M.Group} {t : Session M}, g.isSome ∧
      (∀ other, HasStatus other s.beside → HasStatus other t.beside) →
      (g = none → HasStatus args.groupId t.beside) ∧
        ∀ other, HasStatus other s.beside → HasStatus other t.beside := by
    rintro g t ⟨hg, hothers⟩
    refine ⟨fun hnone => ?_, hothers⟩
    rw [hnone] at hg
    cases hg
  rw [settlePending_eq]
  cases settling args existing ownMemberId op with
  | keep => exact hsome ⟨rfl, fun _ h => h⟩
  | merge =>
    exact wp_mono (settleBy_change_hasStatus (fun _ => use_holds fun _ _ _ => trivial) s)
      (fun _ _ h => hsome h) fun _ _ h => h
  | clear =>
    exact wp_mono (settleBy_change_hasStatus (fun _ => use_holds fun _ _ _ => trivial) s)
      (fun _ _ h => hsome h) fun _ _ h => h
  | remove =>
    exact wp_mono (settleBy_remove_hasStatus hwritten) (fun _ _ h => ⟨fun _ => h.1, h.2⟩)
      fun _ _ h => h

theorem openGroup_hasStatus (args : AllMessagesOfGroupArgs) {s : Session M}
    (hwritten : BatchStatusWritten env args s) : wp (openGroup env args) s
      (fun o t => (∀ opening, o = some opening → opening.deleted = true →
          HasStatus args.groupId t.beside) ∧
        ∀ other, HasStatus other s.beside → HasStatus other t.beside) fun _ _ => True := by
  have hload : wp (loadGroupWithEpochMessageSecrets env args.groupId (preloadEpochs args.messages)) s
      (fun _ => Holds (fun _ => True) s.beside) fun _ => Holds (fun _ => True) s.beside :=
    load_holds (fun _ _ _ _ _ => trivial) args.groupId (preloadEpochs args.messages) s
      ⟨trivial, rfl⟩
  rw [openGroup, wp_bind, wp_attempt]
  cases hrun : (loadGroupWithEpochMessageSecrets env args.groupId (preloadEpochs args.messages)).run
      s with
  | error e t =>
    have hbeside := ((wp_of_error hrun).mp hload).2
    refine (wp_of_error hrun).mpr ⟨fun opening ho hdeleted => ?_, fun other h => ?_⟩
    · cases ho
      cases hdeleted
    · rw [hbeside]
      exact h
  | ok existing t =>
    have hbeside := ((wp_of_ok hrun).mp hload).2
    refine (wp_of_ok hrun).mpr ?_
    dsimp only
    cases ownIdFromLeafNode existing with
    | none =>
      refine ⟨fun _ ho => (by cases ho), fun other h => ?_⟩
      rw [hbeside]
      exact h
    | some ownMemberId =>
      dsimp only
      rw [wp_bind]
      cases hrow : (getGroupPendingOperation env args.groupId).run t with
      | error e u => exact (wp_of_error hrow).mpr trivial
      | ok row u =>
        have hsame : u.beside = s.beside := by
          have hread : wp (getGroupPendingOperation env args.groupId) t
              (fun _ u => u.beside = s.beside) fun _ _ => True :=
            wp_useStatuses (fun _ _ => trivial) fun _ => hbeside
          exact (wp_of_ok hrow).mp hread
        refine (wp_of_ok hrow).mpr ?_
        rw [wp_bind]
        refine wp_mono (settlePending_hasStatus existing ownMemberId _
          (hwritten existing t row u hrun hrow)) (fun g v hv => ⟨fun opening ho hdeleted => ?_, ?_⟩)
          fun _ _ h => h
        · cases ho
          exact hv.1 (Option.isNone_iff_eq_none.mp hdeleted)
        · rw [← hsame]
          exact hv.2

/-- **One group**: no status is lost, and if it is deleted it has a status. -/
theorem processGroup_hasStatus (config : M.JoinConfig) (args : AllMessagesOfGroupArgs)
    {s : Session M} (hwritten : BatchStatusWritten env args s) :
    wp (processGroup env config args) s (fun r t => (r.2 = true → HasStatus args.groupId t.beside) ∧
      ∀ other, HasStatus other s.beside → HasStatus other t.beside) fun _ _ => True := by
  rw [processGroup, wp_bind]
  refine wp_mono (openGroup_hasStatus args hwritten) ?_ fun _ _ h => h
  rintro o t ⟨hdeleted, hothers⟩
  cases o with
  | none => exact ⟨fun h => (by cases h), hothers⟩
  | some opening =>
    have hloops : (processMessages env config args opening.mlsGroup t).2.beside = t.beside :=
      (processMessages_holds (P := fun _ => True) M.untouched_true (fun _ _ _ _ _ => trivial) config
        args opening.mlsGroup ⟨trivial, rfl⟩).2
    refine ⟨fun h => ?_, fun other h => ?_⟩
    · exact hloops.symm ▸ hdeleted opening rfl h
    · exact hloops.symm ▸ hothers other h

theorem processAllMessages_hasStatus (config : M.JoinConfig) (groups : List AllMessagesOfGroupArgs)
    {s : Session M} (hwritten : StatusesWritten env config groups s) :
    wp (processAllMessages env config groups) s
      (fun result t => (∀ groupId ∈ result.deletedGroups, HasStatus groupId t.beside) ∧
        ∀ other, HasStatus other s.beside → HasStatus other t.beside) fun _ _ => True := by
  induction groups generalizing s with
  | nil => exact ⟨fun _ h => (by cases h), fun _ h => h⟩
  | cons args rest ih =>
    obtain ⟨hbatch, hrest⟩ := hwritten
    rw [processAllMessages, wp_bind]
    have hgroup := processGroup_hasStatus config args hbatch
    cases hrun : (processGroup env config args).run s with
    | error e t => exact (wp_of_error hrun).mpr trivial
    | ok r t =>
      obtain ⟨hdeleted, hothers⟩ := (wp_of_ok hrun).mp hgroup
      refine (wp_of_ok hrun).mpr ?_
      rw [wp_bind]
      refine wp_mono (ih (hrest r t hrun)) ?_ fun _ _ h => h
      rintro result u ⟨hresult, hkept⟩
      refine ⟨fun groupId hmem => ?_, fun other h => hkept other (hothers other h)⟩
      rcases List.mem_append.mp hmem with hmem | hmem
      · split_ifs at hmem with hdel
        · cases List.mem_singleton.mp hmem
          exact hkept _ (hdeleted hdel)
        · cases hmem
      · exact hresult groupId hmem

end batch

/-- **What a batch deletes is not erased**, unless a status that it writes is lost. -/
theorem not_erased (M : OpenMls) {C : Codec} (K : KeyStore M C) (env : Surroundings M)
    (config : M.JoinConfig) (groups : List AllMessagesOfGroupArgs) {s s' : Session M}
    {result : ProcessAllMessagesResult} (hwritten : StatusesWritten env config groups s)
    (hrun : (processAllMessages env config groups).run s = .ok result s') {groupId : String}
    (hdeleted : groupId ∈ result.deletedGroups) : ¬Erased K groupId s' := fun herased =>
  herased.noStatus (((wp_of_ok hrun).mp
    (processAllMessages_hasStatus config groups hwritten)).1 groupId hdeleted)

/-- **The plaintexts of a deleted group stay**: OpenMLS, through which it is deleted, does not use
their table. -/
theorem decryptedMessages_kept
    (hM : ∀ entries, M.Untouched fun db => (K.tables db).decryptedApplicationMessages = entries)
    (halone : ∀ t, env.others t = []) (config : M.JoinConfig)
    (groups : List AllMessagesOfGroupArgs) (s : Session M) :
    wp (processAllMessages env config groups) s
      (fun _ t => (K.tables t.store).decryptedApplicationMessages =
        (K.tables s.store).decryptedApplicationMessages)
      fun _ t => (K.tables t.store).decryptedApplicationMessages =
        (K.tables s.store).decryptedApplicationMessages :=
  processAllMessages_untouched (hM _) (Surroundings.untouched_of_alone halone) config groups rfl

theorem statusesWritten_of_calm (hcalm : ∀ t, env.fault t = none) (config : M.JoinConfig)
    (groups : List AllMessagesOfGroupArgs) (s : Session M) : StatusesWritten env config groups s := by
  induction groups generalizing s with
  | nil => trivial
  | cons args rest ih => exact ⟨fun _ _ _ _ _ _ _ _ => hcalm _, fun _ s' _ => ih s'⟩

namespace Plain

/-- The group was created but never confirmed, and a message of it was decrypted. -/
def unconfirmed : Session plainMessages where
  store := ((sessionAt 1 [] []).store,
    { Database.empty with
      decryptedApplicationMessages := Table.empty.insertOrReplace keptMessage }, [])
  beside := [("g", "create_group")]
  time := 0
  seen := 0

/-- A batch without messages deletes it. -/
def unconfirmedDeleted : EStateM.Result Error (Session plainMessages) ProcessAllMessagesResult :=
  (processAllMessages .calm () [batch []]).run unconfirmed

end Plain

open Plain in
/-- **A status and a plaintext are left.** -/
theorem batch_leaves_status_and_message :
    (outcome unconfirmedDeleted).map ProcessAllMessagesResult.deletedGroups = .ok ["g"] ∧
      (final unconfirmedDeleted).beside = [("g", "none")] ∧
      plainKeyStore.entry (final unconfirmedDeleted).store "g" "m" = some keptMessage := by
  decide +kernel

open Plain in
theorem not_erased_unconfirmed : ∃ result s', unconfirmedDeleted = .ok result s' ∧
    "g" ∈ result.deletedGroups ∧ ¬Erased plainKeyStore "g" s' := by
  obtain ⟨result, s', hrun⟩ := exists_of_isOk (r := unconfirmedDeleted) (by decide +kernel)
  have hdeleted : (outcome unconfirmedDeleted).map ProcessAllMessagesResult.deletedGroups =
      .ok ["g"] := by decide +kernel
  rw [hrun] at hdeleted
  have hmem : "g" ∈ result.deletedGroups := by
    rw [Except.ok.inj hdeleted]
    exact List.mem_singleton_self _
  exact ⟨result, s', hrun, hmem, not_erased plainMessages plainKeyStore .calm () [batch []]
    (statusesWritten_of_calm .calm (fun _ => rfl) _ _ _) hrun hmem⟩

end KChat.Mls
