import KChat.Storage.Agreement
import KChat.Storage.Store

/-!
# The storage provider refines the store

* `Refines`: the tables stand for the store; every row is of the current version.
* `Writes`, `Reads`: what a method does to tables that stand for a store, one lemma for each kind of
  table and statement.
* **`TransactionalStorageProvider.refines`**, `SqliteStorageProvider.refines`: a method answers as
  the store does. **`replies_explained`**: so do sequences of methods.
-/

namespace KChat.Storage

open Lib

variable {C : Codec} {env : Surroundings} {α : Type}

/-! ## Keys as bytes -/

/-- The bytes of a key, if it has some. -/
def bytesOf {k : Entity} (a : C.Carrier k) : Option Bytes := (C.toVec a).toOption

def groupDataKey (k : C.Carrier .groupId × GroupDataType) : Option (Bytes × GroupDataType) :=
  (bytesOf k.1).map fun groupId => (groupId, k.2)

def proposalKey (k : C.Carrier .groupId × C.Carrier .proposalRef) : Option (Bytes × Bytes) :=
  (bytesOf k.1).bind fun groupId => (bytesOf k.2).map fun proposalRef => (groupId, proposalRef)

def epochKeyPairsKey (k : C.Carrier .groupId × C.Carrier .epochKey × ℕ) :
    Option (Bytes × Bytes × ℕ) :=
  (bytesOf k.1).bind fun groupId => (bytesOf k.2.1).map fun epochId => (groupId, epochId, k.2.2)

def messageSecretsKey (k : C.Carrier .groupId × ℕ) : Option (ℕ × Bytes × ℤ) :=
  (bytesOf k.1).map fun groupId => (storageProviderVersion, groupId, k.2)

theorem bytesOf_eq_some {k : Entity} {a : C.Carrier k} {bytes : Bytes} :
    bytesOf a = some bytes ↔ C.toVec a = .ok bytes := by
  unfold bytesOf
  cases C.toVec a <;> simp [Except.toOption]

theorem groupDataKey_eq_some {k : C.Carrier .groupId × GroupDataType} {k' : Bytes × GroupDataType} :
    groupDataKey k = some k' ↔ C.toVec k.1 = .ok k'.1 ∧ k.2 = k'.2 := by
  simp only [groupDataKey, Option.map_eq_some_iff, bytesOf_eq_some, Prod.ext_iff]
  constructor
  · rintro ⟨groupId, h, rfl, ht⟩
    exact ⟨h, ht⟩
  · exact fun h => ⟨k'.1, h.1, rfl, h.2⟩

theorem proposalKey_eq_some {k : C.Carrier .groupId × C.Carrier .proposalRef} {k' : Bytes × Bytes} :
    proposalKey k = some k' ↔ C.toVec k.1 = .ok k'.1 ∧ C.toVec k.2 = .ok k'.2 := by
  simp only [proposalKey, Option.bind_eq_some_iff, Option.map_eq_some_iff, bytesOf_eq_some,
    Prod.ext_iff]
  constructor
  · rintro ⟨groupId, h, proposalRef, h', rfl, rfl⟩
    exact ⟨h, h'⟩
  · exact fun h => ⟨k'.1, h.1, k'.2, h.2, rfl, rfl⟩

theorem epochKeyPairsKey_eq_some {k : C.Carrier .groupId × C.Carrier .epochKey × ℕ}
    {k' : Bytes × Bytes × ℕ} : epochKeyPairsKey k = some k' ↔
      C.toVec k.1 = .ok k'.1 ∧ C.toVec k.2.1 = .ok k'.2.1 ∧ k.2.2 = k'.2.2 := by
  simp only [epochKeyPairsKey, Option.bind_eq_some_iff, Option.map_eq_some_iff, bytesOf_eq_some,
    Prod.ext_iff]
  constructor
  · rintro ⟨groupId, h, epochId, h', rfl, rfl, hleaf⟩
    exact ⟨h, h', hleaf⟩
  · exact fun h => ⟨k'.1, h.1, k'.2.1, h.2.1, rfl, rfl, h.2.2⟩

theorem messageSecretsKey_eq_some {k : C.Carrier .groupId × ℕ} {k' : ℕ × Bytes × ℤ} :
    messageSecretsKey k = some k' ↔
      k'.1 = storageProviderVersion ∧ C.toVec k.1 = .ok k'.2.1 ∧ (k.2 : ℤ) = k'.2.2 := by
  simp only [messageSecretsKey, Option.map_eq_some_iff, bytesOf_eq_some, Prod.ext_iff]
  constructor
  · rintro ⟨groupId, h, hversion, rfl, hepoch⟩
    exact ⟨hversion.symm, h, hepoch⟩
  · exact fun h => ⟨k'.2.1, h.2.1, h.1.symm, rfl, h.2.2⟩

section injective

variable (hC : C.Lawful)

include hC

theorem bytesOf_injective {k : Entity} {a b : C.Carrier k} {bytes : Bytes}
    (ha : bytesOf a = some bytes) (hb : bytesOf b = some bytes) : a = b :=
  hC.injective (bytesOf_eq_some.mp ha) (bytesOf_eq_some.mp hb)

theorem groupDataKey_injective {k₁ k₂ : C.Carrier .groupId × GroupDataType}
    {k' : Bytes × GroupDataType} (h₁ : groupDataKey k₁ = some k') (h₂ : groupDataKey k₂ = some k') :
    k₁ = k₂ := by
  obtain ⟨hid, ht⟩ := groupDataKey_eq_some.mp h₁
  obtain ⟨hid', ht'⟩ := groupDataKey_eq_some.mp h₂
  exact Prod.ext (hC.injective hid hid') (ht.trans ht'.symm)

theorem proposalKey_injective {k₁ k₂ : C.Carrier .groupId × C.Carrier .proposalRef}
    {k' : Bytes × Bytes} (h₁ : proposalKey k₁ = some k') (h₂ : proposalKey k₂ = some k') :
    k₁ = k₂ := by
  obtain ⟨hid, href⟩ := proposalKey_eq_some.mp h₁
  obtain ⟨hid', href'⟩ := proposalKey_eq_some.mp h₂
  exact Prod.ext (hC.injective hid hid') (hC.injective href href')

theorem epochKeyPairsKey_injective {k₁ k₂ : C.Carrier .groupId × C.Carrier .epochKey × ℕ}
    {k' : Bytes × Bytes × ℕ} (h₁ : epochKeyPairsKey k₁ = some k')
    (h₂ : epochKeyPairsKey k₂ = some k') : k₁ = k₂ := by
  obtain ⟨hid, hepoch, hleaf⟩ := epochKeyPairsKey_eq_some.mp h₁
  obtain ⟨hid', hepoch', hleaf'⟩ := epochKeyPairsKey_eq_some.mp h₂
  exact Prod.ext (hC.injective hid hid')
    (Prod.ext (hC.injective hepoch hepoch') (hleaf.trans hleaf'.symm))

theorem messageSecretsKey_injective {k₁ k₂ : C.Carrier .groupId × ℕ} {k' : ℕ × Bytes × ℤ}
    (h₁ : messageSecretsKey k₁ = some k') (h₂ : messageSecretsKey k₂ = some k') : k₁ = k₂ := by
  obtain ⟨-, hid, hepoch⟩ := messageSecretsKey_eq_some.mp h₁
  obtain ⟨-, hid', hepoch'⟩ := messageSecretsKey_eq_some.mp h₂
  exact Prod.ext (hC.injective hid hid') (Int.ofNat_inj.mp (hepoch.trans hepoch'.symm))

end injective

/-! ## Tables that stand for a store -/

/-- **The tables stand for the store.** -/
structure Refines (db : Database) (store : Store C) : Prop where
  groupData : db.groupData.Represents groupDataKey
    (fun k row (v : C.Carrier (.groupData k.2)) =>
      row.providerVersion = storageProviderVersion ∧ C.fromSlice row.groupData = .ok v)
    store.groupData
  ownLeafNodes : ∀ {groupId bytes}, C.toVec groupId = .ok bytes →
    (db.ownLeafNodes.filter fun row => row.groupId = bytes ∧
      row.providerVersion = storageProviderVersion).mapM (fun row => C.fromSlice row.leafNode) =
      .ok (store.ownLeafNodes groupId)
  proposals : db.proposals.Represents proposalKey
    (fun _ row v => row.providerVersion = storageProviderVersion ∧ C.fromSlice row.proposal = .ok v)
    store.proposals
  proposalKeys : ∀ row ∈ db.proposals.rows,
    ∃ k : C.Carrier .groupId × C.Carrier .proposalRef, proposalKey k = some row.key
  storedProposals : ∀ {k proposal}, store.proposals k = some proposal → (proposalKey k).isSome
  epochKeyPairs : db.epochKeysPairs.Represents epochKeyPairsKey
    (fun _ row v =>
      row.providerVersion = storageProviderVersion ∧ C.fromSliceVec row.keyPairs = .ok v)
    store.epochKeyPairs
  messageSecrets : db.groupEpochMessageSecrets.Represents messageSecretsKey
    (fun _ row v => row.messageSecrets = v) store.messageSecrets
  signatureKeys : db.signatureKeys.Represents bytesOf
    (fun _ row v =>
      row.providerVersion = storageProviderVersion ∧ C.fromSlice row.signatureKey = .ok v)
    store.signatureKeys
  encryptionKeys : db.encryptionKeys.Represents bytesOf
    (fun _ row v => row.providerVersion = storageProviderVersion ∧ C.fromSlice row.keyPair = .ok v)
    store.encryptionKeys
  keyPackages : db.keyPackages.Represents bytesOf
    (fun _ row v =>
      row.providerVersion = storageProviderVersion ∧ C.fromSlice row.keyPackage = .ok v)
    store.keyPackages
  psks : db.psks.Represents bytesOf
    (fun _ row v => row.providerVersion = storageProviderVersion ∧ C.fromSlice row.pskBundle = .ok v)
    store.psks

theorem refines_empty : Refines .empty (.empty : Store C) where
  groupData := .empty
  ownLeafNodes _ := rfl
  proposals := .empty
  proposalKeys _ h := nomatch h
  storedProposals h := nomatch h
  epochKeyPairs := .empty
  messageSecrets := .empty
  signatureKeys := .empty
  encryptionKeys := .empty
  keyPackages := .empty
  psks := .empty

/-- What a computation does to tables that stand for a store. -/
def Writes (x : Action Unit) (f : Store C → Store C) : Prop := ∀ s store, Refines s.store store →
  wp x s (fun _ s' => Refines s'.store (f store)) fun _ _ => True

/-- What a computation reads from tables that stand for a store. -/
def Reads (x : Action α) (Q : Store C → α → Prop) : Prop := ∀ s store, Refines s.store store →
  wp x s (fun a s' => Q store a ∧ Refines s'.store store) fun _ _ => True

theorem writes_inTx {x : Statement Unit} {f : Store C → Store C}
    (h : ∀ db store, Refines db store → wp x db (fun _ db' => Refines db' (f store))
      fun _ _ => True) : Writes (inTx env x) f := by
  intro s store hs
  exact wp_inTx (fun _ _ => trivial) fun _ => h s.store store hs

theorem reads_inTx {x : Statement α} {Q : Store C → α → Prop}
    (h : ∀ db store, Refines db store → wp x db (fun a db' => Q store a ∧ db' = db)
      fun _ _ => True) : Reads (inTx env x) Q := by
  intro s store hs
  refine wp_inTx (fun _ _ => trivial) fun _ => ?_
  refine wp_mono (h s.store store hs) (fun a db ⟨hQ, hdb⟩ => ⟨hQ, ?_⟩) fun _ _ _ => trivial
  rw [Session.tick_store, hdb]
  exact hs

theorem Writes.bind {x y : Action Unit} {f g : Store C → Store C} (hx : Writes x f)
    (hy : Writes y g) : Writes (x >>= fun _ => y) fun store => g (f store) := by
  intro s store hs
  rw [wp_bind]
  exact wp_mono (hx s store hs) (fun _ s' hs' => hy s' _ hs') fun _ _ _ => trivial

theorem Reads.map {x : Action α} {β : Type} {f : α → β} {Q : Store C → α → Prop}
    {R : Store C → β → Prop} (hx : Reads x Q) (h : ∀ store a, Q store a → R store (f a)) :
    Reads (do return f (← x)) R := by
  intro s store hs
  rw [wp_bind]
  exact wp_mono (hx s store hs) (fun a s' ha => ⟨h store a ha.1, ha.2⟩) fun _ _ _ => trivial

/-- A query for several rows. -/
theorem wp_queryMap {ρ β : Type} {select : Database → List ρ} {fromRow : ρ → Except String β}
    {db : Database} {Q : List β → Prop} (h : ∀ l, (select db).mapM fromRow = .ok l → Q l) :
    wp (queryMap select fromRow) db (fun l db' => Q l ∧ db' = db) fun _ _ => True := by
  rw [queryMap, wp_bind, wp_get]
  exact wp_ofResult (fun l hl => ⟨h l hl, rfl⟩) fun _ _ => trivial

/-- **A query for one key.** -/
theorem wp_queryRow {ρ κ K : Type} {V : K → Type} [DecidableEq κ] {key : ρ → κ} {t : Table ρ key}
    {enc : K → Option κ} {rel : (k : K) → ρ → V k → Prop} {m : (k : K) → Option (V k)}
    (h : t.Represents enc rel m) {k : K} {k' : κ} (hk : enc k = some k') {p q : ρ → Bool}
    (hp : ∀ row, p row = (decide (key row = k') && q row)) {fromRow : ρ → Except String (V k)}
    (hrel : ∀ row v, rel k row v → key row = k' → q row = true ∧ fromRow row = .ok v)
    {select : Database → List ρ} {db : Database} (hselect : select db = t.rows.filter p) :
    wp (queryRow select fromRow) db (fun a db' => a = m k ∧ db' = db) fun _ _ => True := by
  rw [queryRow, wp_bind, wp_get, hselect, Table.select_key q hp]
  rcases h.of_get_eq hk with ⟨hget, hm⟩ | ⟨row, v, hget, hm, hrow⟩
  · rw [hget, hm]
    exact ⟨rfl, rfl⟩
  · obtain ⟨hq, hfrom⟩ := hrel row v hrow (Table.get_eq_some_iff.mp hget).2
    rw [hget, hm, Option.filter_some, if_pos hq]
    change wp (ofResult (some <$> fromRow row)) db _ _
    rw [hfrom]
    exact ⟨rfl, rfl⟩

variable (hC : C.Lawful)

include hC

/-! ## Group data -/

namespace StorableGroupData

variable (groupId : C.Carrier .groupId) (dataType : GroupDataType)

theorem storeInTx_writes (value : C.Carrier (.groupData dataType)) :
    Writes (storeInTx env groupId dataType value) fun store =>
      store.write groupId dataType value := by
  refine writes_inTx fun db store h => ?_
  rw [wp_bind]
  refine wp_ofResult (fun bytes hbytes => ?_) fun _ _ => trivial
  rw [wp_bind]
  refine wp_ofResult (fun data hdata => ?_) fun _ _ => trivial
  refine { h with groupData := ?_ }
  show Table.Represents _ _ _ (Store.put store.groupData (groupId, dataType) value)
  exact h.groupData.insertOrReplace (groupDataKey_injective hC)
    (groupDataKey_eq_some.mpr ⟨hbytes, rfl⟩) ⟨rfl, hC.roundTrip hdata⟩

omit hC in
theorem loadInTx_reads : Reads (loadInTx env groupId dataType) fun store value =>
    value = store.groupData (groupId, dataType) := by
  refine reads_inTx fun db store h => ?_
  rw [wp_bind]
  refine wp_ofResult (fun bytes hbytes => ?_) fun _ _ => trivial
  have hkey : groupDataKey (groupId, dataType) = some (bytes, dataType) :=
    groupDataKey_eq_some.mpr ⟨hbytes, rfl⟩
  refine wp_queryRow h.groupData hkey (q := fun row => row.providerVersion = storageProviderVersion)
    (fun row => ?_) (fun row v hrow _ => ⟨decide_eq_true hrow.1, hrow.2⟩) rfl
  rw [Bool.eq_iff_iff]
  simp [GroupDataRow.key, and_assoc]

theorem deleteGroupDataInTx_writes : Writes (deleteGroupDataInTx env groupId dataType) fun store =>
    store.delete groupId dataType := by
  refine writes_inTx fun db store h => ?_
  rw [wp_bind]
  refine wp_ofResult (fun bytes hbytes => ?_) fun _ _ => trivial
  have hkey : groupDataKey (groupId, dataType) = some (bytes, dataType) :=
    groupDataKey_eq_some.mpr ⟨hbytes, rfl⟩
  refine { h with groupData := ?_ }
  show Table.Represents _ _ _ (Store.erase store.groupData (· = (groupId, dataType)))
  refine h.groupData.deleteKey (groupDataKey_injective hC) hkey
    (q := fun row => row.providerVersion = storageProviderVersion) (fun row => ?_)
    fun row v hrow _ => decide_eq_true hrow.1
  rw [Bool.eq_iff_iff]
  simp [GroupDataRow.key, and_assoc]

end StorableGroupData

/-! ## Own leaf nodes -/

namespace StorableLeafNode

variable (groupId : C.Carrier .groupId)

open Classical in
theorem storeInTx_writes (leafNode : C.Carrier .leafNode) :
    Writes (storeInTx env groupId leafNode) fun store => { store with
      ownLeafNodes := Function.update store.ownLeafNodes groupId
        (store.ownLeafNodes groupId ++ [leafNode]) } := by
  refine writes_inTx fun db store h => ?_
  rw [wp_bind]
  refine wp_ofResult (fun bytes hbytes => ?_) fun _ _ => trivial
  rw [wp_bind]
  refine wp_ofResult (fun node hnode => ?_) fun _ _ => trivial
  refine { h with ownLeafNodes := ?_ }
  intro groupId' bytes' hbytes'
  dsimp only
  rw [List.filter_append, List.mapM_append, h.ownLeafNodes hbytes']
  by_cases hid : groupId' = groupId
  · subst hid
    obtain rfl := Except.ok.inj (hbytes.symm.trans hbytes')
    rw [Function.update_self, List.filter_cons_of_pos (by simp), List.filter_nil]
    simp [hC.roundTrip hnode]
    rfl
  · have hne : bytes ≠ bytes' := fun heq => hid (hC.injective hbytes' (heq ▸ hbytes))
    rw [Function.update_of_ne hid, List.filter_cons_of_neg (by simp [hne]), List.filter_nil]
    simp

omit hC in
theorem loadInTx_reads :
    Reads (loadInTx env groupId) fun store leafNodes => leafNodes = store.ownLeafNodes groupId := by
  refine reads_inTx fun db store h => ?_
  rw [wp_bind]
  refine wp_ofResult (fun bytes hbytes => ?_) fun _ _ => trivial
  exact wp_queryMap fun l hl => Except.ok.inj (hl.symm.trans (h.ownLeafNodes hbytes))

open Classical in
theorem deleteLeafNodesInTx_writes : Writes (deleteLeafNodesInTx env groupId) fun store =>
    { store with ownLeafNodes := Function.update store.ownLeafNodes groupId [] } := by
  refine writes_inTx fun db store h => ?_
  rw [wp_bind]
  refine wp_ofResult (fun bytes hbytes => ?_) fun _ _ => trivial
  refine { h with ownLeafNodes := ?_ }
  intro groupId' bytes' hbytes'
  dsimp only
  by_cases hid : groupId' = groupId
  · subst hid
    obtain rfl := Except.ok.inj (hbytes.symm.trans hbytes')
    have hnil : (db.ownLeafNodes.filter fun row =>
        !decide (row.groupId = bytes ∧ row.providerVersion = storageProviderVersion)).filter
        (fun row => row.groupId = bytes ∧ row.providerVersion = storageProviderVersion) = [] := by
      rw [List.filter_filter, List.filter_eq_nil_iff]
      intro row _
      simp
    rw [Function.update_self, hnil]
    rfl
  · have hne : bytes' ≠ bytes := fun heq => hid (hC.injective hbytes' (heq ▸ hbytes))
    rw [Function.update_of_ne hid, List.filter_filter, ← h.ownLeafNodes hbytes']
    congr 1
    refine List.filter_congr fun row _ => ?_
    rw [Bool.eq_iff_iff]
    simp only [Bool.and_eq_true, decide_eq_true_eq, Bool.not_eq_true', decide_eq_false_iff_not]
    exact ⟨fun h => h.1, fun h => ⟨h, fun h' => hne (h.1.symm.trans h'.1)⟩⟩

end StorableLeafNode

/-! ## Proposals -/

namespace StorableProposal

variable (groupId : C.Carrier .groupId)

theorem storeInTx_writes (proposalRef : C.Carrier .proposalRef)
    (proposal : C.Carrier .queuedProposal) :
    Writes (storeInTx env groupId proposalRef proposal) fun store => { store with
      proposals := Store.put store.proposals (groupId, proposalRef)
        ((store.proposals (groupId, proposalRef)).getD proposal) } := by
  refine writes_inTx fun db store h => ?_
  rw [wp_bind]
  refine wp_ofResult (fun bytes hbytes => ?_) fun _ _ => trivial
  rw [wp_bind]
  refine wp_ofResult (fun refBytes hrefBytes => ?_) fun _ _ => trivial
  rw [wp_bind]
  refine wp_ofResult (fun value hvalue => ?_) fun _ _ => trivial
  have hkey : proposalKey (groupId, proposalRef) = some (bytes, refBytes) :=
    proposalKey_eq_some.mpr ⟨hbytes, hrefBytes⟩
  refine { h with proposals := ?_, proposalKeys := ?_, storedProposals := ?_ }
  · show Table.Represents _ _ _ (Store.put store.proposals (groupId, proposalRef)
      ((store.proposals (groupId, proposalRef)).getD proposal))
    exact h.proposals.insertOrIgnore (proposalKey_injective hC) hkey ⟨rfl, hC.roundTrip hvalue⟩
  · intro row hrow
    rcases Table.mem_insertOrIgnore hrow with hold | rfl
    · exact h.proposalKeys row hold
    · exact ⟨_, hkey⟩
  · intro k proposal' hk
    by_cases heq : k = (groupId, proposalRef)
    · rw [heq, hkey]
      rfl
    · dsimp only at hk
      rw [Store.put_of_ne heq] at hk
      exact h.storedProposals hk

/-- What the rows of a group are. -/
theorem row_spec {db : Database} {store : Store C} (h : Refines db store) {bytes : Bytes}
    (hbytes : C.toVec groupId = .ok bytes) {row : ProposalRow}
    (hrow : row ∈ db.proposals.rows.filter fun row =>
      row.groupId = bytes ∧ row.providerVersion = storageProviderVersion) :
    ∃ ref proposal, C.toVec ref = .ok row.proposalRef ∧ C.fromSlice row.proposal = .ok proposal ∧
      store.proposals (groupId, ref) = some proposal := by
  obtain ⟨hmem, hcond⟩ := List.mem_filter.mp hrow
  obtain ⟨k, hk⟩ := h.proposalKeys row hmem
  obtain ⟨hid, href⟩ := proposalKey_eq_some.mp hk
  have hk1 : k.1 = groupId := by
    rw [show row.key.1 = bytes from (of_decide_eq_true hcond).1] at hid
    exact hC.injective hid hbytes
  rcases h.proposals.of_get_eq hk with ⟨hget, -⟩ | ⟨row', proposal, hget, hm, -, hvalue⟩
  · rw [Table.mem_rows_iff.mp hmem] at hget
    cases hget
  · rw [Table.mem_rows_iff.mp hmem] at hget
    obtain rfl := Option.some.inj hget
    rw [← hk1]
    exact ⟨k.2, proposal, href, hvalue, hm⟩

/-- Every queued proposal of a group has a row. -/
theorem exists_row {db : Database} {store : Store C} (h : Refines db store) {bytes : Bytes}
    (hbytes : C.toVec groupId = .ok bytes) {ref : C.Carrier .proposalRef}
    {proposal : C.Carrier .queuedProposal} (hm : store.proposals (groupId, ref) = some proposal) :
    ∃ row ∈ db.proposals.rows.filter fun row =>
      row.groupId = bytes ∧ row.providerVersion = storageProviderVersion,
      C.fromSlice row.proposalRef = .ok ref ∧ C.fromSlice row.proposal = .ok proposal := by
  obtain ⟨k', hkey⟩ := Option.isSome_iff_exists.mp (h.storedProposals hm)
  obtain ⟨hid, href⟩ := proposalKey_eq_some.mp hkey
  rcases h.proposals.of_get_eq hkey with ⟨-, hm'⟩ | ⟨row, proposal', hget, hm', hversion, hvalue⟩
  · rw [hm] at hm'
    cases hm'
  · rw [hm] at hm'
    obtain rfl := Option.some.inj hm'
    obtain ⟨hmem, rfl⟩ := Table.get_eq_some_iff.mp hget
    have hbytes' : row.groupId = bytes := Except.ok.inj (hid.symm.trans hbytes)
    exact ⟨row, List.mem_filter.mpr ⟨hmem, decide_eq_true ⟨hbytes', hversion⟩⟩,
      hC.roundTrip href, hvalue⟩

omit hC in
/-- The rows of a group have different references. -/
theorem row_nodup (db : Database) (bytes : Bytes) : ((db.proposals.rows.filter fun row =>
    row.groupId = bytes ∧ row.providerVersion = storageProviderVersion).map fun row =>
      (Except.ok row.proposalRef : Except String Bytes)).Nodup := by
  refine List.Nodup.map_on (fun row hrow row' hrow' heq => ?_)
    ((List.Nodup.of_map _ db.proposals.nodup).filter _)
  obtain ⟨hmem, hcond⟩ := List.mem_filter.mp hrow
  obtain ⟨hmem', hcond'⟩ := List.mem_filter.mp hrow'
  refine List.inj_on_of_nodup_map db.proposals.nodup hmem hmem' (Prod.ext ?_ (Except.ok.inj heq))
  exact (of_decide_eq_true hcond).1.trans (of_decide_eq_true hcond').1.symm

theorem loadRefsInTx_reads : Reads (loadRefsInTx env groupId) fun store refs =>
    refs.Nodup ∧ ∀ ref, ref ∈ refs ↔ (store.proposals (groupId, ref)).isSome := by
  refine reads_inTx fun db store h => ?_
  rw [wp_bind]
  refine wp_ofResult (fun bytes hbytes => ?_) fun _ _ => trivial
  refine wp_queryMap fun refs hrefs => ⟨?_, fun ref => ?_⟩
  · refine List.Nodup.of_map (C.toVec (k := .proposalRef)) ?_
    rw [map_of_mapM (k := fun row : ProposalRow => .ok row.proposalRef) hrefs]
    · exact row_nodup db bytes
    · intro row hrow ref hfrom
      obtain ⟨ref', -, href', -⟩ := row_spec hC groupId h hbytes hrow
      obtain rfl := Except.ok.inj ((hC.roundTrip href').symm.trans hfrom)
      exact href'
  · rw [mem_of_mapM hrefs, Option.isSome_iff_exists]
    constructor
    · rintro ⟨row, hrow, hfrom⟩
      obtain ⟨ref', proposal, href', -, hm⟩ := row_spec hC groupId h hbytes hrow
      obtain rfl := Except.ok.inj ((hC.roundTrip href').symm.trans hfrom)
      exact ⟨proposal, hm⟩
    · rintro ⟨proposal, hm⟩
      obtain ⟨row, hrow, href, -⟩ := exists_row hC groupId h hbytes hm
      exact ⟨row, hrow, href⟩

/-- What a row is read as. -/
theorem fromRow_eq_ok {row : ProposalRow} {ref : C.Carrier .proposalRef}
    {proposal : C.Carrier .queuedProposal} (href : C.toVec ref = .ok row.proposalRef)
    (hproposal : C.fromSlice row.proposal = .ok proposal)
    {entry : C.Carrier .proposalRef × C.Carrier .queuedProposal} :
    (do return (← C.fromSlice row.proposalRef, ← C.fromSlice row.proposal) : Except String _) =
      .ok entry ↔ entry = (ref, proposal) := by
  rw [hC.roundTrip href, hproposal]
  exact ⟨fun h => (Except.ok.inj h).symm, fun h => h ▸ rfl⟩

theorem loadInTx_reads : Reads (loadInTx env groupId) fun store proposals =>
    (proposals.map Prod.fst).Nodup ∧ ∀ ref proposal,
      (ref, proposal) ∈ proposals ↔ store.proposals (groupId, ref) = some proposal := by
  refine reads_inTx fun db store h => ?_
  rw [wp_bind]
  refine wp_ofResult (fun bytes hbytes => ?_) fun _ _ => trivial
  refine wp_queryMap fun proposals hproposals => ⟨?_, fun ref proposal => ?_⟩
  · refine List.Nodup.of_map (C.toVec (k := .proposalRef)) ?_
    rw [List.map_map,
      map_of_mapM (k := fun row : ProposalRow => .ok row.proposalRef) hproposals]
    · exact row_nodup db bytes
    · intro row hrow entry hfrom
      obtain ⟨ref', proposal', href', hvalue, -⟩ := row_spec hC groupId h hbytes hrow
      rw [(fromRow_eq_ok hC href' hvalue).mp hfrom]
      exact href'
  · rw [mem_of_mapM hproposals]
    constructor
    · rintro ⟨row, hrow, hfrom⟩
      obtain ⟨ref', proposal', href', hvalue, hm⟩ := row_spec hC groupId h hbytes hrow
      obtain ⟨rfl, rfl⟩ := Prod.ext_iff.mp ((fromRow_eq_ok hC href' hvalue).mp hfrom)
      exact hm
    · intro hm
      obtain ⟨row, hrow, href, hvalue⟩ := exists_row hC groupId h hbytes hm
      refine ⟨row, hrow, ?_⟩
      rw [href, hvalue]
      rfl

theorem deleteAllProposalsInTx_writes : Writes (deleteAllProposalsInTx env groupId) fun store =>
    { store with proposals := Store.erase store.proposals fun k => k.1 = groupId } := by
  refine writes_inTx fun db store h => ?_
  rw [wp_bind]
  refine wp_ofResult (fun bytes hbytes => ?_) fun _ _ => trivial
  refine { h with proposals := ?_, proposalKeys := ?_, storedProposals := ?_ }
  · show Table.Represents _ _ _ (Store.erase store.proposals fun k => k.1 = groupId)
    refine h.proposals.deleteWhere ?_
    rintro k _ row v hk rfl hrow
    obtain ⟨hid, -⟩ := proposalKey_eq_some.mp hk
    rw [decide_eq_true_iff]
    constructor
    · rintro ⟨rfl, -⟩
      exact hC.injective hid hbytes
    · rintro rfl
      exact ⟨Except.ok.inj (hid.symm.trans hbytes), hrow.1⟩
  · exact fun row hrow => h.proposalKeys row (List.mem_of_mem_filter hrow)
  · exact fun hk => h.storedProposals (Store.of_erase (p := fun k => k.1 = groupId) hk)

theorem deleteProposalInTx_writes (proposalRef : C.Carrier .proposalRef) :
    Writes (deleteProposalInTx env groupId proposalRef) fun store =>
      { store with proposals := Store.erase store.proposals (· = (groupId, proposalRef)) } := by
  refine writes_inTx fun db store h => ?_
  rw [wp_bind]
  refine wp_ofResult (fun bytes hbytes => ?_) fun _ _ => trivial
  rw [wp_bind]
  refine wp_ofResult (fun refBytes hrefBytes => ?_) fun _ _ => trivial
  have hkey : proposalKey (groupId, proposalRef) = some (bytes, refBytes) :=
    proposalKey_eq_some.mpr ⟨hbytes, hrefBytes⟩
  refine { h with proposals := ?_, proposalKeys := ?_, storedProposals := ?_ }
  · show Table.Represents _ _ _ (Store.erase store.proposals (· = (groupId, proposalRef)))
    refine h.proposals.deleteKey (proposalKey_injective hC) hkey
      (q := fun row => row.providerVersion = storageProviderVersion) (fun row => ?_)
      fun row v hrow _ => decide_eq_true hrow.1
    rw [Bool.eq_iff_iff]
    simp [ProposalRow.key, and_assoc]
  · exact fun row hrow => h.proposalKeys row (List.mem_of_mem_filter hrow)
  · exact fun hk => h.storedProposals (Store.of_erase (p := (· = (groupId, proposalRef))) hk)

end StorableProposal

/-! ## Key pairs of epochs -/

namespace StorableEpochKeyPairs

variable (groupId : C.Carrier .groupId) (epochId : C.Carrier .epochKey) (leafIndex : ℕ)

theorem storeInTx_writes (keyPairs : List (C.Carrier .hpkeKeyPair)) :
    Writes (storeInTx env groupId epochId leafIndex keyPairs) fun store => { store with
      epochKeyPairs := Store.put store.epochKeyPairs (groupId, epochId, leafIndex) keyPairs } := by
  refine writes_inTx fun db store h => ?_
  rw [wp_bind]
  refine wp_ofResult (fun bytes hbytes => ?_) fun _ _ => trivial
  rw [wp_bind]
  refine wp_ofResult (fun epochBytes hepochBytes => ?_) fun _ _ => trivial
  rw [wp_bind]
  refine wp_ofResult (fun value hvalue => ?_) fun _ _ => trivial
  refine { h with epochKeyPairs := ?_ }
  show Table.Represents _ _ _
    (Store.put store.epochKeyPairs (groupId, epochId, leafIndex) keyPairs)
  exact h.epochKeyPairs.insertOrReplace (epochKeyPairsKey_injective hC)
    (epochKeyPairsKey_eq_some.mpr ⟨hbytes, hepochBytes, rfl⟩) ⟨rfl, hC.roundTripSlice hvalue⟩

omit hC in
theorem loadInTx_reads : Reads (loadInTx env groupId epochId leafIndex) fun store keyPairs =>
    keyPairs = (store.epochKeyPairs (groupId, epochId, leafIndex)).getD [] := by
  refine Reads.map (Q := fun store keyPairs =>
    keyPairs = store.epochKeyPairs (groupId, epochId, leafIndex)) ?_
    fun _ _ h => congrArg (Option.getD · []) h
  refine reads_inTx fun db store h => ?_
  rw [wp_bind]
  refine wp_ofResult (fun bytes hbytes => ?_) fun _ _ => trivial
  rw [wp_bind]
  refine wp_ofResult (fun epochBytes hepochBytes => ?_) fun _ _ => trivial
  have hkey : epochKeyPairsKey (groupId, epochId, leafIndex) =
      some (bytes, epochBytes, leafIndex) :=
    epochKeyPairsKey_eq_some.mpr ⟨hbytes, hepochBytes, rfl⟩
  refine wp_queryRow h.epochKeyPairs hkey
    (q := fun row => row.providerVersion = storageProviderVersion) (fun row => ?_)
    (fun row v hrow _ => ⟨decide_eq_true hrow.1, hrow.2⟩) rfl
  rw [Bool.eq_iff_iff]
  simp [EpochKeyPairsRow.key, and_assoc]

theorem deleteEpochKeyPairInTx_writes :
    Writes (deleteEpochKeyPairInTx env groupId epochId leafIndex) fun store => { store with
      epochKeyPairs := Store.erase store.epochKeyPairs (· = (groupId, epochId, leafIndex)) } := by
  refine writes_inTx fun db store h => ?_
  rw [wp_bind]
  refine wp_ofResult (fun bytes hbytes => ?_) fun _ _ => trivial
  rw [wp_bind]
  refine wp_ofResult (fun epochBytes hepochBytes => ?_) fun _ _ => trivial
  have hkey : epochKeyPairsKey (groupId, epochId, leafIndex) =
      some (bytes, epochBytes, leafIndex) :=
    epochKeyPairsKey_eq_some.mpr ⟨hbytes, hepochBytes, rfl⟩
  refine { h with epochKeyPairs := ?_ }
  show Table.Represents _ _ _
    (Store.erase store.epochKeyPairs (· = (groupId, epochId, leafIndex)))
  refine h.epochKeyPairs.deleteKey (epochKeyPairsKey_injective hC) hkey
    (q := fun row => row.providerVersion = storageProviderVersion) (fun row => ?_)
    fun row v hrow _ => decide_eq_true hrow.1
  rw [Bool.eq_iff_iff]
  simp [EpochKeyPairsRow.key, and_assoc]

end StorableEpochKeyPairs

/-! ## Message secrets of epochs -/

namespace StorableGroupEpochMessageSecrets

variable (groupId : C.Carrier .groupId)

theorem storeInTx_writes (epoch : ℕ) (messageSecrets : Bytes) :
    Writes (storeInTx env groupId epoch messageSecrets) fun store => { store with
      messageSecrets := Store.put store.messageSecrets (groupId, epoch) messageSecrets } := by
  refine writes_inTx fun db store h => ?_
  rw [wp_bind]
  refine wp_ofResult (fun bytes hbytes => ?_) fun _ _ => trivial
  rw [wp_bind]
  refine wp_ofResult (fun epoch' hepoch => ?_) fun _ _ => trivial
  refine { h with messageSecrets := ?_ }
  show Table.Represents _ _ _ (Store.put store.messageSecrets (groupId, epoch) messageSecrets)
  exact h.messageSecrets.upsert (messageSecretsKey_injective hC)
    (messageSecretsKey_eq_some.mpr ⟨rfl, hbytes, (u64ToSql_eq_ok hepoch).symm⟩) rfl fun _ _ => rfl

omit hC in
theorem loadInTx_reads (epoch : ℕ) : Reads (loadInTx env groupId epoch) fun store secrets =>
    secrets = store.messageSecrets (groupId, epoch) := by
  refine reads_inTx fun db store h => ?_
  rw [wp_bind]
  refine wp_ofResult (fun bytes hbytes => ?_) fun _ _ => trivial
  rw [wp_bind]
  refine wp_ofResult (fun epoch' hepoch => ?_) fun _ _ => trivial
  have hkey : messageSecretsKey (groupId, epoch) = some (storageProviderVersion, bytes, epoch') :=
    messageSecretsKey_eq_some.mpr ⟨rfl, hbytes, (u64ToSql_eq_ok hepoch).symm⟩
  refine wp_queryRow h.messageSecrets hkey (q := fun _ => true) (fun row => ?_)
    (fun row v hrow _ => ⟨rfl, congrArg _ hrow⟩) rfl
  rw [Bool.eq_iff_iff]
  simp [MessageSecretsRow.key]

/-- What is deleted belongs to the group. -/
theorem deleteWhere_represents {db : Database} {store : Store C} (h : Refines db store)
    {bytes : Bytes} (hbytes : C.toVec groupId = .ok bytes) {p : ℤ → Prop} [DecidablePred p]
    {q : ℕ → Prop} (hpq : ∀ n : ℕ, p n ↔ q n) :
    (db.groupEpochMessageSecrets.deleteWhere fun row =>
      row.providerVersion = storageProviderVersion ∧ row.groupId = bytes ∧
        p row.epoch).Represents messageSecretsKey (fun _ row v => row.messageSecrets = v)
      (Store.erase store.messageSecrets fun k => k.1 = groupId ∧ q k.2) := by
  refine h.messageSecrets.deleteWhere ?_
  rintro k _ row v hk rfl -
  obtain ⟨hversion, hid, hepoch⟩ := messageSecretsKey_eq_some.mp hk
  rw [decide_eq_true_iff]
  constructor
  · rintro ⟨-, hgroup, hp⟩
    exact ⟨hC.injective hid (show C.toVec groupId = .ok row.groupId from hgroup ▸ hbytes),
      (hpq k.2).mp (hepoch ▸ hp)⟩
  · rintro ⟨hgroup, hq⟩
    refine ⟨hversion, Except.ok.inj (hid.symm.trans (hgroup ▸ hbytes)), ?_⟩
    rw [show row.epoch = (k.2 : ℤ) from hepoch.symm]
    exact (hpq k.2).mpr hq

theorem deleteInTx_writes : Writes (deleteInTx env groupId) fun store =>
    { store with messageSecrets := Store.erase store.messageSecrets fun k => k.1 = groupId } := by
  refine writes_inTx fun db store h => ?_
  rw [wp_bind]
  refine wp_ofResult (fun bytes hbytes => ?_) fun _ _ => trivial
  have hall := deleteWhere_represents hC groupId h hbytes (p := fun _ => True) (q := fun _ => True)
    fun _ => Iff.rfl
  simp only [and_true] at hall
  exact { h with messageSecrets := hall }

theorem storeAllInTx_writes (messageSecrets : List (ℕ × Bytes)) :
    Writes (storeAllInTx env groupId messageSecrets) fun store => { store with
      messageSecrets := Store.putSecrets groupId messageSecrets store.messageSecrets } := by
  induction messageSecrets with
  | nil => exact fun s store hs => hs
  | cons entry messageSecrets ih =>
    exact (storeInTx_writes hC groupId entry.1 entry.2).bind ih

theorem replaceInTx_writes (messageSecrets : List (ℕ × Bytes)) :
    Writes (replaceInTx env groupId messageSecrets) fun store => { store with
      messageSecrets := Store.putSecrets groupId messageSecrets
        (Store.erase store.messageSecrets fun k => k.1 = groupId) } :=
  (deleteInTx_writes hC groupId).bind (storeAllInTx_writes hC groupId messageSecrets)

theorem pruneInTx_writes (keepFromEpoch currentEpoch : ℕ) :
    Writes (pruneInTx env groupId keepFromEpoch currentEpoch) fun store => { store with
      messageSecrets := Store.erase store.messageSecrets fun k =>
        k.1 = groupId ∧ (k.2 < keepFromEpoch ∨ currentEpoch < k.2) } := by
  refine writes_inTx fun db store h => ?_
  rw [wp_bind]
  refine wp_ofResult (fun bytes hbytes => ?_) fun _ _ => trivial
  rw [wp_bind]
  refine wp_ofResult (fun keepFrom hkeepFrom => ?_) fun _ _ => trivial
  rw [wp_bind]
  refine wp_ofResult (fun current hcurrent => ?_) fun _ _ => trivial
  obtain rfl := u64ToSql_eq_ok hkeepFrom
  obtain rfl := u64ToSql_eq_ok hcurrent
  have hpruned := deleteWhere_represents hC groupId h hbytes
    (p := fun z => z < (keepFromEpoch : ℤ) ∨ (currentEpoch : ℤ) < z)
    (q := fun n => n < keepFromEpoch ∨ currentEpoch < n) fun n => by omega
  exact { h with messageSecrets := hpruned }

omit hC in
theorem isMigrationDoneInTx_reads : Reads (isMigrationDoneInTx env groupId) fun store done =>
    done = (store.groupData (groupId, .messageSecrets)).isNone := by
  refine Reads.map (Q := fun store legacy =>
    legacy = (store.groupData (groupId, .messageSecrets)).isSome) ?_ fun store legacy h => ?_
  · refine reads_inTx fun db store h => ?_
    rw [wp_bind]
    refine wp_ofResult (fun bytes hbytes => ?_) fun _ _ => trivial
    refine ⟨?_, rfl⟩
    have hkey : groupDataKey (groupId, .messageSecrets) = some (bytes, .messageSecrets) :=
      groupDataKey_eq_some.mpr ⟨hbytes, rfl⟩
    rw [Table.any_key (k := (bytes, .messageSecrets))
      (fun row => decide (row.providerVersion = storageProviderVersion)) fun row => ?_]
    · rcases h.groupData.of_get_eq hkey with ⟨hget, hm⟩ | ⟨row, v, hget, hm, hversion, -⟩
      · rw [hget, hm]
        rfl
      · rw [hget, hm, Option.filter_some, if_pos (decide_eq_true hversion)]
        rfl
    · rw [Bool.eq_iff_iff]
      simp [GroupDataRow.key, and_comm]
  · rw [h, Option.not_isSome]

end StorableGroupEpochMessageSecrets

/-! ## Key packages -/

namespace StorableKeyPackage

variable (keyPackageRef : C.Carrier .hashReference)

theorem storeInTx_writes (keyPackage : C.Carrier .keyPackage) :
    Writes (storeInTx env keyPackageRef keyPackage) fun store =>
      { store with keyPackages := Store.put store.keyPackages keyPackageRef keyPackage } := by
  refine writes_inTx fun db store h => ?_
  rw [wp_bind]
  refine wp_ofResult (fun bytes hbytes => ?_) fun _ _ => trivial
  rw [wp_bind]
  refine wp_ofResult (fun value hvalue => ?_) fun _ _ => trivial
  refine { h with keyPackages := ?_ }
  show Table.Represents _ _ _ (Store.put store.keyPackages keyPackageRef keyPackage)
  exact h.keyPackages.insertOrReplace (bytesOf_injective hC) (bytesOf_eq_some.mpr hbytes)
    ⟨rfl, hC.roundTrip hvalue⟩

omit hC in
theorem loadInTx_reads :
    Reads (loadInTx env keyPackageRef) fun store value => value = store.keyPackages keyPackageRef := by
  refine reads_inTx fun db store h => ?_
  rw [wp_bind]
  refine wp_ofResult (fun bytes hbytes => ?_) fun _ _ => trivial
  refine wp_queryRow h.keyPackages (bytesOf_eq_some.mpr hbytes)
    (q := fun row => row.providerVersion = storageProviderVersion) (fun row => ?_)
    (fun row v hrow _ => ⟨decide_eq_true hrow.1, hrow.2⟩) rfl
  rw [Bool.decide_and]

theorem deleteKeyPackageInTx_writes : Writes (deleteKeyPackageInTx env keyPackageRef) fun store =>
    { store with keyPackages := Store.erase store.keyPackages (· = keyPackageRef) } := by
  refine writes_inTx fun db store h => ?_
  rw [wp_bind]
  refine wp_ofResult (fun bytes hbytes => ?_) fun _ _ => trivial
  refine { h with keyPackages := ?_ }
  show Table.Represents _ _ _ (Store.erase store.keyPackages (· = keyPackageRef))
  refine h.keyPackages.deleteKey (bytesOf_injective hC) (bytesOf_eq_some.mpr hbytes)
    (q := fun row => row.providerVersion = storageProviderVersion) (fun row => ?_)
    fun row v hrow _ => decide_eq_true hrow.1
  rw [Bool.decide_and]

end StorableKeyPackage

/-! ## Pre-shared keys -/

namespace StorablePskBundle

variable (pskId : C.Carrier .pskId)

theorem storeInTx_writes (psk : C.Carrier .pskBundle) :
    Writes (storeInTx env pskId psk) fun store =>
      { store with psks := Store.put store.psks pskId psk } := by
  refine writes_inTx fun db store h => ?_
  rw [wp_bind]
  refine wp_ofResult (fun bytes hbytes => ?_) fun _ _ => trivial
  rw [wp_bind]
  refine wp_ofResult (fun value hvalue => ?_) fun _ _ => trivial
  refine { h with psks := ?_ }
  show Table.Represents _ _ _ (Store.put store.psks pskId psk)
  exact h.psks.insertOrReplace (bytesOf_injective hC) (bytesOf_eq_some.mpr hbytes)
    ⟨rfl, hC.roundTrip hvalue⟩

omit hC in
theorem loadInTx_reads :
    Reads (loadInTx env pskId) fun store value => value = store.psks pskId := by
  refine reads_inTx fun db store h => ?_
  rw [wp_bind]
  refine wp_ofResult (fun bytes hbytes => ?_) fun _ _ => trivial
  refine wp_queryRow h.psks (bytesOf_eq_some.mpr hbytes)
    (q := fun row => row.providerVersion = storageProviderVersion) (fun row => ?_)
    (fun row v hrow _ => ⟨decide_eq_true hrow.1, hrow.2⟩) rfl
  rw [Bool.decide_and]

theorem deleteInTx_writes : Writes (deleteInTx env pskId) fun store =>
    { store with psks := Store.erase store.psks (· = pskId) } := by
  refine writes_inTx fun db store h => ?_
  rw [wp_bind]
  refine wp_ofResult (fun bytes hbytes => ?_) fun _ _ => trivial
  refine { h with psks := ?_ }
  show Table.Represents _ _ _ (Store.erase store.psks (· = pskId))
  refine h.psks.deleteKey (bytesOf_injective hC) (bytesOf_eq_some.mpr hbytes)
    (q := fun row => row.providerVersion = storageProviderVersion) (fun row => ?_)
    fun row v hrow _ => decide_eq_true hrow.1
  rw [Bool.decide_and]

end StorablePskBundle

/-! ## Encryption keys -/

namespace StorableEncryptionKeyPair

variable (publicKey : C.Carrier .encryptionKey)

theorem storeInTx_writes (keyPair : C.Carrier .hpkeKeyPair) :
    Writes (storeInTx env publicKey keyPair) fun store =>
      { store with encryptionKeys := Store.put store.encryptionKeys publicKey keyPair } := by
  refine writes_inTx fun db store h => ?_
  rw [wp_bind]
  refine wp_ofResult (fun bytes hbytes => ?_) fun _ _ => trivial
  rw [wp_bind]
  refine wp_ofResult (fun value hvalue => ?_) fun _ _ => trivial
  refine { h with encryptionKeys := ?_ }
  show Table.Represents _ _ _ (Store.put store.encryptionKeys publicKey keyPair)
  exact h.encryptionKeys.insertOrReplace (bytesOf_injective hC) (bytesOf_eq_some.mpr hbytes)
    ⟨rfl, hC.roundTrip hvalue⟩

omit hC in
theorem loadInTx_reads :
    Reads (loadInTx env publicKey) fun store value => value = store.encryptionKeys publicKey := by
  refine reads_inTx fun db store h => ?_
  rw [wp_bind]
  refine wp_ofResult (fun bytes hbytes => ?_) fun _ _ => trivial
  refine wp_queryRow h.encryptionKeys (bytesOf_eq_some.mpr hbytes)
    (q := fun row => row.providerVersion = storageProviderVersion) (fun row => ?_)
    (fun row v hrow _ => ⟨decide_eq_true hrow.1, hrow.2⟩) rfl
  rw [Bool.decide_and]

theorem deleteInTx_writes : Writes (deleteInTx env publicKey) fun store =>
    { store with encryptionKeys := Store.erase store.encryptionKeys (· = publicKey) } := by
  refine writes_inTx fun db store h => ?_
  rw [wp_bind]
  refine wp_ofResult (fun bytes hbytes => ?_) fun _ _ => trivial
  refine { h with encryptionKeys := ?_ }
  show Table.Represents _ _ _ (Store.erase store.encryptionKeys (· = publicKey))
  refine h.encryptionKeys.deleteKey (bytesOf_injective hC) (bytesOf_eq_some.mpr hbytes)
    (q := fun row => row.providerVersion = storageProviderVersion) (fun row => ?_)
    fun row v hrow _ => decide_eq_true hrow.1
  rw [Bool.decide_and]

end StorableEncryptionKeyPair

/-! ## Signature keys -/

namespace StorableSignatureKeyPairs

variable (publicKey : C.Carrier .signaturePublicKey)

theorem storeInTx_writes (signatureKey : C.Carrier .signatureKeyPair) :
    Writes (storeInTx env publicKey signatureKey) fun store =>
      { store with signatureKeys := Store.put store.signatureKeys publicKey signatureKey } := by
  refine writes_inTx fun db store h => ?_
  rw [wp_bind]
  refine wp_ofResult (fun bytes hbytes => ?_) fun _ _ => trivial
  rw [wp_bind]
  refine wp_ofResult (fun value hvalue => ?_) fun _ _ => trivial
  refine { h with signatureKeys := ?_ }
  show Table.Represents _ _ _ (Store.put store.signatureKeys publicKey signatureKey)
  exact h.signatureKeys.insertOrReplace (bytesOf_injective hC) (bytesOf_eq_some.mpr hbytes)
    ⟨rfl, hC.roundTrip hvalue⟩

omit hC in
theorem loadInTx_reads :
    Reads (loadInTx env publicKey) fun store value => value = store.signatureKeys publicKey := by
  refine reads_inTx fun db store h => ?_
  rw [wp_bind]
  refine wp_ofResult (fun bytes hbytes => ?_) fun _ _ => trivial
  refine wp_queryRow h.signatureKeys (bytesOf_eq_some.mpr hbytes)
    (q := fun row => row.providerVersion = storageProviderVersion) (fun row => ?_)
    (fun row v hrow _ => ⟨decide_eq_true hrow.1, hrow.2⟩) rfl
  rw [Bool.decide_and]

theorem deleteInTx_writes : Writes (deleteInTx env publicKey) fun store =>
    { store with signatureKeys := Store.erase store.signatureKeys (· = publicKey) } := by
  refine writes_inTx fun db store h => ?_
  rw [wp_bind]
  refine wp_ofResult (fun bytes hbytes => ?_) fun _ _ => trivial
  refine { h with signatureKeys := ?_ }
  show Table.Represents _ _ _ (Store.erase store.signatureKeys (· = publicKey))
  refine h.signatureKeys.deleteKey (bytesOf_injective hC) (bytesOf_eq_some.mpr hbytes)
    (q := fun row => row.providerVersion = storageProviderVersion) (fun row => ?_)
    fun row v hrow _ => decide_eq_true hrow.1
  rw [Bool.decide_and]

end StorableSignatureKeyPairs

/-! ## Methods and sequences -/

omit hC in
theorem writes_finish {x : Action Unit} {f : Store C → Store C} (hx : Writes x f) {s : Session}
    {store : Store C} (h : Refines s.store store) :
    wp (finish x) s (fun (reply : Reply C) s' => reply = .done ∧ Refines s'.store (f store))
      fun _ _ => True := by
  rw [finish, replying, wp_bind]
  exact wp_mono (hx s store h) (fun _ s' h' => ⟨rfl, h'⟩) fun _ _ _ => trivial

omit hC in
theorem reads_replying (reply : α → Reply C) {x : Action α} {value : Store C → α}
    (hx : Reads x fun store a => a = value store) {s : Session} {store : Store C}
    (h : Refines s.store store) : wp (replying reply x) s
      (fun r s' => r = reply (value store) ∧ Refines s'.store store) fun _ _ => True := by
  rw [replying, wp_bind]
  refine wp_mono (hx s store h) (fun a s' ha => ⟨?_, ha.2⟩) fun _ _ _ => trivial
  rw [ha.1]

/-- **A method answers as the store does**, and leaves tables that stand for what it left of the
store. -/
theorem TransactionalStorageProvider.refines (op : StorageOp C) {s : Session} {store : Store C}
    (h : Refines s.store store) : wp (TransactionalStorageProvider.perform env op) s
      (fun reply s' => store.Answers reply op ∧ Refines s'.store (store.apply op))
      fun _ _ => True := by
  cases op with
  | writeMlsJoinConfig groupId value | writeTree groupId value
  | writeInterimTranscriptHash groupId value | writeContext groupId value
  | writeConfirmationTag groupId value | writeGroupState groupId value
  | writeMessageSecrets groupId value | writeResumptionPskStore groupId value
  | writeOwnLeafIndex groupId value | writeGroupEpochSecrets groupId value
  | writeApplicationExportTree groupId value =>
    exact writes_finish (StorableGroupData.storeInTx_writes hC groupId _ value) h
  | mlsGroupJoinConfig groupId | tree groupId | groupContext groupId
  | interimTranscriptHash groupId | confirmationTag groupId | groupState groupId
  | messageSecrets groupId | resumptionPskStore groupId | ownLeafIndex groupId
  | groupEpochSecrets groupId | applicationExportTree groupId =>
    exact reads_replying (.found _) (StorableGroupData.loadInTx_reads groupId _) h
  | deleteGroupConfig groupId | deleteTree groupId | deleteConfirmationTag groupId
  | deleteGroupState groupId | deleteContext groupId | deleteInterimTranscriptHash groupId
  | deleteMessageSecrets groupId | deleteAllResumptionPskSecrets groupId
  | deleteOwnLeafIndex groupId | deleteGroupEpochSecrets groupId
  | deleteApplicationExportTree groupId =>
    exact writes_finish (StorableGroupData.deleteGroupDataInTx_writes hC groupId _) h
  | appendOwnLeafNode groupId leafNode =>
    exact writes_finish (StorableLeafNode.storeInTx_writes hC groupId leafNode) h
  | queueProposal groupId proposalRef proposal =>
    exact writes_finish (StorableProposal.storeInTx_writes hC groupId proposalRef proposal) h
  | writeSignatureKeyPair publicKey keyPair =>
    exact writes_finish (StorableSignatureKeyPairs.storeInTx_writes hC publicKey keyPair) h
  | writeEncryptionKeyPair publicKey keyPair =>
    exact writes_finish (StorableEncryptionKeyPair.storeInTx_writes hC publicKey keyPair) h
  | writeEncryptionEpochKeyPairs groupId epoch leafIndex keyPairs =>
    exact writes_finish (StorableEpochKeyPairs.storeInTx_writes hC groupId epoch leafIndex keyPairs) h
  | writeKeyPackage hashRef keyPackage =>
    exact writes_finish (StorableKeyPackage.storeInTx_writes hC hashRef keyPackage) h
  | writePsk pskId psk =>
    exact writes_finish (StorablePskBundle.storeInTx_writes hC pskId psk) h
  | ownLeafNodes groupId => exact reads_replying .leafNodes (StorableLeafNode.loadInTx_reads groupId) h
  | queuedProposalRefs groupId =>
    refine wp_mono ((StorableProposal.loadRefsInTx_reads hC groupId).map
      (R := fun store reply => store.Answers reply (.queuedProposalRefs groupId))
      (fun store refs hrefs => ⟨refs, rfl, hrefs⟩) s store h) (fun _ _ h => h) fun _ _ h => h
  | queuedProposals groupId =>
    refine wp_mono ((StorableProposal.loadInTx_reads hC groupId).map
      (R := fun store reply => store.Answers reply (.queuedProposals groupId))
      (fun store proposals hproposals => ⟨proposals, rfl, hproposals⟩) s store h)
      (fun _ _ h => h) fun _ _ h => h
  | supportsEpochMessageSecrets => exact ⟨rfl, h⟩
  | isGroupEpochMessageSecretsMigrated groupId =>
    exact reads_replying .flag (StorableGroupEpochMessageSecrets.isMigrationDoneInTx_reads groupId) h
  | groupEpochMessageSecrets groupId epoch =>
    exact reads_replying .secrets (StorableGroupEpochMessageSecrets.loadInTx_reads groupId epoch) h
  | writeGroupEpochMessageSecrets groupId epoch secrets =>
    exact writes_finish (StorableGroupEpochMessageSecrets.storeInTx_writes hC groupId epoch secrets) h
  | replaceGroupEpochMessageSecrets groupId secrets =>
    exact writes_finish (StorableGroupEpochMessageSecrets.replaceInTx_writes hC groupId secrets) h
  | deleteGroupEpochMessageSecrets groupId =>
    exact writes_finish (StorableGroupEpochMessageSecrets.deleteInTx_writes hC groupId) h
  | pruneGroupEpochMessageSecrets groupId keepFrom current =>
    exact writes_finish (StorableGroupEpochMessageSecrets.pruneInTx_writes hC groupId keepFrom current) h
  | signatureKeyPair publicKey =>
    exact reads_replying (.found _) (StorableSignatureKeyPairs.loadInTx_reads publicKey) h
  | encryptionKeyPair publicKey =>
    exact reads_replying (.found _) (StorableEncryptionKeyPair.loadInTx_reads publicKey) h
  | encryptionEpochKeyPairs groupId epoch leafIndex =>
    exact reads_replying .keyPairs
      (StorableEpochKeyPairs.loadInTx_reads groupId epoch leafIndex) h
  | keyPackage hashRef =>
    exact reads_replying (.found _) (StorableKeyPackage.loadInTx_reads hashRef) h
  | psk pskId => exact reads_replying (.found _) (StorablePskBundle.loadInTx_reads pskId) h
  | removeProposal groupId proposalRef =>
    exact writes_finish (StorableProposal.deleteProposalInTx_writes hC groupId proposalRef) h
  | deleteOwnLeafNodes groupId =>
    exact writes_finish (StorableLeafNode.deleteLeafNodesInTx_writes hC groupId) h
  | clearProposalQueue groupId =>
    exact writes_finish (StorableProposal.deleteAllProposalsInTx_writes hC groupId) h
  | deleteSignatureKeyPair publicKey =>
    exact writes_finish (StorableSignatureKeyPairs.deleteInTx_writes hC publicKey) h
  | deleteEncryptionKeyPair publicKey =>
    exact writes_finish (StorableEncryptionKeyPair.deleteInTx_writes hC publicKey) h
  | deleteEncryptionEpochKeyPairs groupId epoch leafIndex =>
    exact writes_finish (StorableEpochKeyPairs.deleteEpochKeyPairInTx_writes hC groupId epoch leafIndex) h
  | deleteKeyPackage hashRef =>
    exact writes_finish (StorableKeyPackage.deleteKeyPackageInTx_writes hC hashRef) h
  | deletePsk pskId =>
    exact writes_finish (StorablePskBundle.deleteInTx_writes hC pskId) h

theorem SqliteStorageProvider.refines (halone : ∀ t, env.others t = []) (op : StorageOp C)
    {s : Session} {store : Store C} (h : Refines s.store store) :
    wp (SqliteStorageProvider.perform env op) s
      (fun reply s' => store.Answers reply op ∧ Refines s'.store (store.apply op))
      fun _ _ => True := by
  cases hrun : (SqliteStorageProvider.perform env op).run s with
  | error e s' => exact (wp_of_error hrun).mpr trivial
  | ok reply s' =>
    obtain ⟨t, ht, hstore⟩ := (SqliteStorageProvider.tracks halone op).of_run rfl hrun
    have hspec := (wp_of_ok ht).mp (TransactionalStorageProvider.refines hC op h)
    rw [← show s'.store = t.store from hstore] at hspec
    exact (wp_of_ok hrun).mpr hspec

omit hC in
/-- **Method after method**; the induction is on the sequence. -/
theorem performAll_explains {perform : StorageOp C → Action (Reply C)}
    (hperform : ∀ (op : StorageOp C) {s : Session} {store : Store C}, Refines s.store store →
      wp (perform op) s (fun reply s' => store.Answers reply op ∧ Refines s'.store (store.apply op))
        fun _ _ => True) (ops : List (StorageOp C)) {s : Session} {store : Store C}
    (h : Refines s.store store) :
    wp (performAll perform ops) s (fun replies _ => store.Explains ops replies)
      fun _ _ => True := by
  induction ops generalizing s store with
  | nil => exact rfl
  | cons op ops ih =>
    rw [performAll, List.mapM_cons, wp_bind]
    refine wp_mono (hperform op h) (fun reply s' ⟨hreply, h'⟩ => ?_) fun _ _ _ => trivial
    rw [wp_bind]
    exact wp_mono (ih h') (fun replies _ hreplies => ⟨hreply, hreplies⟩) fun _ _ _ => trivial

/-- **The replies are those of the store**, whichever provider is used and for every sequence of
methods that meets no error. -/
theorem replies_explained (halone : ∀ t, env.others t = []) {ops : List (StorageOp C)}
    {replies : List (Reply C)} {s s' : Session} (hstart : s.store = .empty)
    (hrun : (performAll (SqliteStorageProvider.perform env) ops).run s = .ok replies s' ∨
      (performAll (TransactionalStorageProvider.perform env) ops).run s = .ok replies s') :
    Store.empty.Explains ops replies := by
  have hrefines : Refines s.store (.empty : Store C) := hstart ▸ refines_empty
  rcases hrun with hrun | hrun
  · exact (wp_of_ok hrun).mp
      (performAll_explains (SqliteStorageProvider.refines hC halone) ops hrefines)
  · exact (wp_of_ok hrun).mp
      (performAll_explains (TransactionalStorageProvider.refines hC) ops hrefines)

omit hC in
/-- The proposal that is queued twice is listed once. -/
theorem replies_explained_queueTwice : ∃ replies,
    replies.length = 3 ∧ (Store.empty (C := byteCodec)).Explains queueTwice replies := by
  obtain ⟨replies, s, hrun⟩ := exists_of_isOk (r := (performAll
    (SqliteStorageProvider.perform .calm) queueTwice).run emptySession) (by decide +kernel)
  have hlength : (outcome ((performAll (SqliteStorageProvider.perform .calm) queueTwice).run
    emptySession)).map List.length = .ok 3 := by decide +kernel
  rw [hrun] at hlength
  exact ⟨replies, Except.ok.inj hlength,
    replies_explained byteCodec_lawful (fun _ => rfl) rfl (.inl hrun)⟩

end KChat.Storage
