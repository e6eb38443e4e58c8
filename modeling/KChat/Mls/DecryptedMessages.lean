import KChat.Mls.KeyStore
import KChat.Mls.Synced

/-!
# Decrypted messages are kept

A message can be decrypted only once, so its plaintext is stored in the transaction that decrypts it
and comes from there until it expires.

* `UqMls`, `UqMls.new`: the client, as far as it is about decrypted messages.
* `processApplicationMessageWithWal`, `pruneDecryptedApplicationMessages`.
* `History`: calls one after the other, at times that do not decrease, with failures anywhere.
* **`decrypt_once`**: what a call does after any history.
-/

namespace KChat.Mls

open Lib

open Storage (Codec Database DecryptedMessageRow)

/-! ## The client -/

/-- A client, which keeps decrypted messages for a while. -/
structure UqMls where
  decryptedMessageTtlSeconds : ℤ
  pos : 0 < decryptedMessageTtlSeconds

namespace UqMls

/-- The hours are positive, and in seconds they fit into an `i64`. -/
def ofHours (decryptedMessageTtlHours : ℕ) : Except Error UqMls :=
  if h : 0 < decryptedMessageTtlHours ∧ decryptedMessageTtlHours * 3600 < 2 ^ 63 then
    .ok { decryptedMessageTtlSeconds := decryptedMessageTtlHours * 3600, pos := by omega }
  else .error .invalidDecryptedMessageTtl

end UqMls

variable {M : OpenMls} {C : Codec} (K : KeyStore M C) (sha256 : Bytes → Bytes)
  (exportSnapshot : Database → C.Carrier .groupId → Except String (Option (List (ℕ × Bytes))))
  (env : Surroundings M)

def pruneDecryptedApplicationMessages (now : ℤ) : Action M Unit :=
  mapError .sqlite (onTables K (Storage.StorableDecryptedApplicationMessage.prune env.onTables now))

/-- The provider is opened, and what is expired is pruned if that succeeds. -/
def UqMls.new (decryptedMessageTtlHours : ℕ) (now : ℤ) : EStateM String (Session M) UqMls := do
  let client ← ofResult ((UqMls.ofHours decryptedMessageTtlHours).mapError Error.display)
  mapError Error.display (useStatuses env fun rows => ((), rows))
  onTables K (Storage.SqliteProvider.new exportSnapshot env.onTables)
  mapError Error.display do
    let _ ← attempt (pruneDecryptedApplicationMessages K env now)
  return client

inductive WalDecryptOutcome
  | message (message : Bytes)
  | messageIdConflict

/-- The closure: the entry of the message, or the message is decrypted and its entry is stored. -/
def walDecrypt (groupId messageId : String) (message ciphertextDigest : Bytes)
    (now expiresAt : ℤ) : Action M WalDecryptOutcome := do
  match ← mapError .sqlite (onTables K (Storage.StorableDecryptedApplicationMessage.loadInTx
    env.onTables (K.groupId groupId) messageId now)) with
  | some entry =>
    if entry.ciphertextDigest ≠ ciphertextDigest then return .messageIdConflict
    else return .message entry.plaintext
  | none =>
    let plaintext ← processApplicationMessageForGroup env groupId message
    mapError .sqlite (onTables K (Storage.StorableDecryptedApplicationMessage.insertInTx
      env.onTables (K.groupId groupId) messageId ciphertextDigest plaintext now expiresAt))
    return .message plaintext

/-- **A message is decrypted once**; `now` was read before. -/
def processApplicationMessageWithWal (client : UqMls) (groupId messageId : String)
    (message : Bytes) (now : ℤ) : Action M Bytes := do
  if now + client.decryptedMessageTtlSeconds < 2 ^ 63 then
    match ← mapError .sqlite (transaction env (walDecrypt K env groupId messageId message
      (sha256 message) now (now + client.decryptedMessageTtlSeconds))) with
    | .message plaintext => return plaintext
    | .messageIdConflict => throw .messageIdConflict
  else throw .invalidDecryptedMessageTtl

/-! ## Entries -/

/-- The entry of a message that was decrypted at `createdAt`. -/
def newEntry (groupId : Bytes) (messageId : String) (ciphertextDigest plaintext : Bytes)
    (createdAt expiresAt : ℤ) : DecryptedMessageRow where
  providerVersion := Storage.storageProviderVersion
  groupId := groupId
  messageId := messageId
  ciphertextDigest := ciphertextDigest
  plaintext := plaintext
  createdAt := createdAt
  expiresAt := expiresAt

/-- The entry of a message, expired or not. -/
def KeyStore.entry (db : M.Db) (groupId messageId : String) : Option DecryptedMessageRow :=
  match C.toVec (K.groupId groupId) with
  | .ok bytes => (K.tables db).decryptedApplicationMessages.get (bytes, messageId)
  | .error _ => none

theorem entry_eq_some {K : KeyStore M C} {db : M.Db} {groupId messageId : String}
    {row : DecryptedMessageRow} : K.entry db groupId messageId = some row ↔
      ∃ bytes, C.toVec (K.groupId groupId) = .ok bytes ∧
        (K.tables db).decryptedApplicationMessages.get (bytes, messageId) = some row := by
  rw [KeyStore.entry]
  cases C.toVec (K.groupId groupId) with
  | ok bytes => simp
  | error e => simp

/-- All entries are of this version of the provider. -/
def KeyStore.OwnEntries (db : M.Db) : Prop :=
  ∀ row ∈ (K.tables db).decryptedApplicationMessages.rows,
    row.providerVersion = Storage.storageProviderVersion

theorem KeyStore.OwnEntries.version {K : KeyStore M C} {db : M.Db} {groupId messageId : String}
    {row : DecryptedMessageRow} (h : K.OwnEntries db)
    (hrow : K.entry db groupId messageId = some row) :
    row.providerVersion = Storage.storageProviderVersion := by
  obtain ⟨bytes, -, hget⟩ := entry_eq_some.mp hrow
  exact h row (Table.get_eq_some_iff.mp hget).1

/-- **The message was decrypted and its entry was stored**: the database is what decrypting leaves,
with the entry. -/
def Decrypted (groupId : String) (message : Bytes) (entry : DecryptedMessageRow) (db db' : M.Db) :
    Prop :=
  ∃ s s' : Session M, s.store = db ∧
    (processApplicationMessageForGroup env groupId message).run s = .ok entry.plaintext s' ∧
    ∃ entries, db' = K.withTables
        { K.tables s'.store with decryptedApplicationMessages := entries } s'.store ∧
      entries.get entry.key = some entry ∧
      ∀ k, k ≠ entry.key → entries.get k = (K.tables db).decryptedApplicationMessages.get k

/-- **The call decrypted the message**, and the entry it stored is there. -/
def StoresEntry (client : UqMls) (groupId messageId : String) (message : Bytes) (now : ℤ)
    (plaintext : Bytes) (db db' : M.Db) : Prop :=
  ∃ bytes entry, entry = newEntry bytes messageId (sha256 message) plaintext now
      (now + client.decryptedMessageTtlSeconds) ∧
    Decrypted K env groupId message entry db db' ∧ K.entry db' groupId messageId = some entry

/-! ## Histories -/

/-- **What calls make of a database** from one time to another. -/
inductive History (db₀ : M.Db) (t₀ : ℤ) : M.Db → ℤ → Prop
  | start : History db₀ t₀ db₀ t₀
  | process {db : M.Db} {t now : ℤ} {env : Surroundings M} {s : Session M} (client : UqMls)
      (groupId messageId : String) (message : Bytes) : History db₀ t₀ db t → t ≤ now →
      (∀ t, env.others t = []) → s.store = db →
      History db₀ t₀ (final ((processApplicationMessageWithWal K sha256 env client groupId messageId
        message now).run s)).store now
  | prune {db : M.Db} {t now : ℤ} {env : Surroundings M} {s : Session M} : History db₀ t₀ db t →
      t ≤ now → (∀ t, env.others t = []) → s.store = db →
      History db₀ t₀ (final ((pruneDecryptedApplicationMessages K env now).run s)).store now
  | reopen {db : M.Db} {t now : ℤ} {env : Surroundings M} {s : Session M} (hours : ℕ) :
      History db₀ t₀ db t → t ≤ now → (∀ t, env.others t = []) → s.store = db →
      History db₀ t₀ (final ((UqMls.new K exportSnapshot env hours now).run s)).store now

/-- A reply, unless a failure hits the beginning, the statement or the commit of a transaction. -/
def unlessHit (fault : ℕ → Option String) (t : ℕ) (reply : Except Error Bytes) :
    Except Error Bytes :=
  match fault t, fault (t + 1), fault (t + 2) with
  | some e, _, _ => .error (.sqlite e)
  | none, some e, _ => .error (.sqlite (Error.sqlite e).display)
  | none, none, some e => .error (.sqlite e)
  | none, none, none => reply

/-! ## Statements on the entries -/

section statements

variable {env : Storage.Surroundings} {id : C.Carrier .groupId} {bytes : Bytes}
  {messageId : String} {now : ℤ}

/-- The selection of an entry is a selection by key. -/
theorem loadInTx_spec (hid : C.toVec id = .ok bytes) (s : Storage.Session) :
    wp (Storage.StorableDecryptedApplicationMessage.loadInTx env id messageId now) s
      (fun a t => env.fault s.time = none ∧ t = s.tick ∧
        a = (s.store.decryptedApplicationMessages.get (bytes, messageId)).filter fun row =>
          row.providerVersion = Storage.storageProviderVersion ∧ now < row.expiresAt)
      fun e t => env.fault s.time = some e ∧ t = s.tick := by
  refine Storage.wp_inTx (fun _ h => ⟨h, rfl⟩) fun hfault => ?_
  rw [hid, wp_bind]
  refine wp_ofResult (fun _ h => ?_) fun _ h => nomatch h
  cases h
  have hselect := Table.select_key (t := s.store.decryptedApplicationMessages)
    (k := (bytes, messageId)) (p := fun row =>
      row.providerVersion = Storage.storageProviderVersion ∧ row.groupId = bytes ∧
        row.messageId = messageId ∧ now < row.expiresAt)
    (fun row => row.providerVersion = Storage.storageProviderVersion ∧ now < row.expiresAt)
    fun row => by
      rw [← Bool.decide_and]
      exact decide_eq_decide.mpr (by rw [DecryptedMessageRow.key, Prod.mk.injEq]; tauto)
  rw [Storage.queryRow, wp_bind, wp_get, hselect]
  cases Option.filter _ _ with
  | none => exact ⟨hfault, rfl, rfl⟩
  | some row => exact ⟨hfault, rfl, rfl⟩

theorem insertInTx_spec (hid : C.toVec id = .ok bytes) (digest plaintext : Bytes)
    (createdAt expiresAt : ℤ) (s : Storage.Session) :
    wp (Storage.StorableDecryptedApplicationMessage.insertInTx env id messageId digest plaintext
        createdAt expiresAt) s
      (fun _ t => t.store = { s.store with
        decryptedApplicationMessages := s.store.decryptedApplicationMessages.upsert
          (fun old => old.expiresAt ≤ createdAt)
          (newEntry bytes messageId digest plaintext createdAt expiresAt) })
      fun _ _ => True := by
  refine Storage.wp_inTx (fun _ _ => trivial) fun _ => ?_
  rw [hid, wp_bind]
  refine wp_ofResult (fun _ h => ?_) fun _ _ => trivial
  cases h
  rfl

/-- Pruning removes what is expired. -/
theorem prune_spec (halone : ∀ t, env.others t = []) (s : Storage.Session) :
    wp (Storage.StorableDecryptedApplicationMessage.prune env now) s
      (fun _ t => t.store = { s.store with
        decryptedApplicationMessages := s.store.decryptedApplicationMessages.deleteWhere fun row =>
          row.providerVersion = Storage.storageProviderVersion ∧ row.expiresAt ≤ now })
      fun _ t => t.store = s.store := by
  have hstore := Session.await_store_of_alone halone s
  refine Storage.wp_pooled.mpr (Storage.wp_inTx (fun _ _ => hstore) fun _ => ?_)
  rw [hstore]
  rfl

end statements

/-! ## One call -/

section call

variable {env : Surroundings M} {groupId messageId : String} {message : Bytes} {now : ℤ}
  {client : UqMls} {K} {sha256}

/-- Decrypting a message does not touch the entries. -/
theorem decrypt_entries (hK : K.Lawful) (s : Session M) :
    wp (processApplicationMessageForGroup env groupId message) s
      (fun _ t => (K.tables t.store).decryptedApplicationMessages =
        (K.tables s.store).decryptedApplicationMessages) fun _ _ => True := by
  rw [processApplicationMessageForGroup, wp_bind]
  refine wp_mono (group_store groupId [message] s) (fun g t ht => ?_) fun _ _ _ => trivial
  rw [← ht, wp_bind, wp_withSelf, processApplicationMessage, wp_bind]
  refine wp_ofResult (fun m _ => ?_) fun _ _ => trivial
  rw [wp_bind, wp_use]
  have hentries := hK.processMessage m (env.fault t.time) ⟨g, t.store⟩
  cases hrun : (M.processMessage m (env.fault t.time)).run ⟨g, t.store⟩ with
  | error e u => exact (wp_of_error hrun).mpr trivial
  | ok processed u =>
    rw [hrun] at hentries
    refine (wp_of_ok hrun).mpr ?_
    dsimp only
    split
    · exact hentries
    · trivial

/-- **The entry is alive**: the reply comes from it, and nothing is changed. -/
theorem walDecrypt_live (hK : K.Lawful) {bytes : Bytes}
    (hid : C.toVec (K.groupId groupId) = .ok bytes) {digest : Bytes} {expiresAt : ℤ}
    {row : DecryptedMessageRow} {s : Session M}
    (hrow : (K.tables s.store).decryptedApplicationMessages.get (bytes, messageId) = some row)
    (hversion : row.providerVersion = Storage.storageProviderVersion) (hlive : now < row.expiresAt) :
    wp (walDecrypt K env groupId messageId message digest now expiresAt) s
      (fun outcome t => env.fault s.time = none ∧ t.time = s.time + 1 ∧ t.store = s.store ∧
        outcome = if row.ciphertextDigest = digest then .message row.plaintext
          else .messageIdConflict)
      fun e _ => ∃ text, env.fault s.time = some text ∧ e = .sqlite text := by
  rw [walDecrypt, wp_bind, wp_mapError, wp_onTables]
  refine wp_mono (loadInTx_spec hid _) (fun a t ⟨hfault, ht, ha⟩ => ?_)
    fun e t ⟨hfault, _⟩ => ⟨e, hfault, rfl⟩
  have hfound : a = some row := by
    rw [ha, KeyStore.view_store, hrow, Option.filter_some, if_pos]
    exact decide_eq_true ⟨hversion, hlive⟩
  subst hfound ht
  have hstore := hK.withTables_tables s.store
  by_cases hdigest : row.ciphertextDigest = digest
  · dsimp only
    rw [if_neg (not_not.mpr hdigest), if_pos hdigest]
    exact ⟨hfault, rfl, hstore, rfl⟩
  · dsimp only
    rw [if_pos hdigest, if_neg hdigest]
    exact ⟨hfault, rfl, hstore, rfl⟩

theorem walDecrypt_dead (hK : K.Lawful) {bytes : Bytes}
    (hid : C.toVec (K.groupId groupId) = .ok bytes) {digest : Bytes} {expiresAt : ℤ} {s : Session M}
    (hdead : ∀ row, (K.tables s.store).decryptedApplicationMessages.get (bytes, messageId) = some row →
      row.expiresAt ≤ now) :
    wp (walDecrypt K env groupId messageId message digest now expiresAt) s
      (fun outcome t => ∃ plaintext, outcome = .message plaintext ∧
        Decrypted K env groupId message
          (newEntry bytes messageId digest plaintext now expiresAt) s.store t.store)
      fun _ _ => True := by
  rw [walDecrypt, wp_bind, wp_mapError, wp_onTables]
  refine wp_mono (loadInTx_spec hid _) (fun a t ⟨_, ht, ha⟩ => ?_) fun _ _ _ => trivial
  have hnone : a = none := by
    rw [ha, KeyStore.view_store, Option.filter_eq_none_iff]
    intro row hrow hlive
    have hexpired := hdead row hrow
    have hnow := (of_decide_eq_true hlive).2
    omega
  subst hnone ht
  dsimp only
  rw [wp_bind]
  cases hrun : (processApplicationMessageForGroup env groupId message).run
      (K.put (Lib.Session.tick (K.view s)) s) with
  | error e u => exact (wp_of_error hrun).mpr trivial
  | ok plaintext u =>
    have hstart : (K.put (Lib.Session.tick (K.view s)) s).store = s.store :=
      hK.withTables_tables s.store
    have hentries := (wp_of_ok hrun).mp (decrypt_entries hK _)
    rw [hstart] at hentries
    refine (wp_of_ok hrun).mpr ?_
    rw [wp_bind, wp_mapError, wp_onTables]
    refine wp_mono (insertInTx_spec hid digest plaintext now expiresAt _) (fun _ v hv => ?_)
      fun _ _ _ => trivial
    refine ⟨plaintext, rfl, _, u, hstart, hrun, _, congrArg (K.withTables · u.store) hv, ?_, ?_⟩
    · refine Table.get_upsert_self fun old hold => decide_eq_true ?_
      rw [KeyStore.view_store, hentries] at hold
      exact hdead old hold
    · intro k hk
      refine (Table.get_upsert_of_ne hk).trans ?_
      rw [KeyStore.view_store, hentries]

/-- An id that cannot be serialized. -/
theorem walDecrypt_of_error {e : String} (hid : C.toVec (K.groupId groupId) = .error e)
    {digest : Bytes} {expiresAt : ℤ} (s : Session M) :
    wp (walDecrypt K env groupId messageId message digest now expiresAt) s (fun _ _ => False)
      fun _ _ => True := by
  rw [walDecrypt, wp_bind, wp_mapError, wp_onTables]
  refine Storage.wp_inTx (fun _ _ => trivial) fun _ => ?_
  rw [hid, wp_bind]
  exact wp_ofResult (fun _ h => nomatch h) fun _ _ => trivial

/-- A call at a time that is too late for an expiry. -/
theorem process_late (hlate : ¬now + client.decryptedMessageTtlSeconds < 2 ^ 63) (s : Session M) :
    (processApplicationMessageWithWal K sha256 env client groupId messageId message now).run s =
      .error .invalidDecryptedMessageTtl s := by
  rw [processApplicationMessageWithWal, if_neg hlate]
  rfl

variable (halone : ∀ t, env.others t = [])
  (hintime : now + client.decryptedMessageTtlSeconds < 2 ^ 63)

include halone hintime

/-- **A call whose message has an entry.** -/
theorem process_live (hK : K.Lawful) {row : DecryptedMessageRow} {s : Session M}
    (hrow : K.entry s.store groupId messageId = some row)
    (hversion : row.providerVersion = Storage.storageProviderVersion) (hlive : now < row.expiresAt) :
    wp (processApplicationMessageWithWal K sha256 env client groupId messageId message now) s
      (fun plaintext t => .ok plaintext = unlessHit env.fault s.time
        (if row.ciphertextDigest = sha256 message then .ok row.plaintext
          else .error .messageIdConflict) ∧ t.store = s.store)
      fun e t => .error e = unlessHit env.fault s.time
        (if row.ciphertextDigest = sha256 message then .ok row.plaintext
          else .error .messageIdConflict) ∧ t.store = s.store := by
  have hstore := Session.await_store_of_alone halone s
  rw [KeyStore.entry] at hrow
  split at hrow
  · rename_i bytes hid
    rw [processApplicationMessageWithWal, if_pos hintime, wp_bind, wp_mapError]
    refine wp_transaction (fun e he => ⟨?_, hstore⟩) fun hbegin => ?_
    · rw [unlessHit, he]
    have hrow' : (K.tables (s.await env).tick.store).decryptedApplicationMessages.get
        (bytes, messageId) = some row := by
      rw [Session.tick_store, hstore, hrow]
    refine wp_mono (walDecrypt_live hK hid hrow' hversion hlive)
      (fun outcome t ⟨hload, htime, ht, houtcome⟩ => ?_) fun e t ⟨text, hload, he⟩ => ⟨?_, hstore⟩
    · rw [Session.tick_time, Session.await_time] at hload htime
      refine ⟨fun e he => ⟨?_, hstore⟩, fun hcommit => ?_⟩
      · rw [htime] at he
        rw [unlessHit, hbegin, hload, he]
      · rw [htime] at hcommit
        have hsame : (t.commit (s.await env)).tick.store = s.store := by
          rw [Session.tick_store, Session.commit_store, ht, Session.tick_store, hstore]
        subst houtcome
        by_cases hdigest : row.ciphertextDigest = sha256 message
        · rw [if_pos hdigest, if_pos hdigest, unlessHit, hbegin, hload, hcommit]
          exact ⟨rfl, hsame⟩
        · rw [if_neg hdigest, if_neg hdigest, unlessHit, hbegin, hload, hcommit]
          exact ⟨rfl, hsame⟩
    · rw [Session.tick_time, Session.await_time] at hload
      rw [he, unlessHit, hbegin, hload]
  · cases hrow

omit hintime in
/-- **A call whose message has no entry, or an expired one.** -/
theorem process_dead (hK : K.Lawful) {s : Session M}
    (hdead : ∀ row, K.entry s.store groupId messageId = some row → row.expiresAt ≤ now) :
    wp (processApplicationMessageWithWal K sha256 env client groupId messageId message now) s
      (fun plaintext t => StoresEntry K sha256 env client groupId messageId message now plaintext
        s.store t.store) fun _ t => t.store = s.store := by
  have hstore := Session.await_store_of_alone halone s
  rw [processApplicationMessageWithWal]
  refine wp_ite (fun _ => ?_) fun _ => rfl
  rw [wp_bind, wp_mapError]
  refine wp_transaction (fun e he => hstore) fun _ => ?_
  cases hid : C.toVec (K.groupId groupId) with
  | error e =>
    exact wp_mono (walDecrypt_of_error hid _) (fun _ _ h => h.elim) fun _ _ _ => hstore
  | ok bytes =>
    have hdead' : ∀ row, (K.tables (s.await env).tick.store).decryptedApplicationMessages.get
        (bytes, messageId) = some row → row.expiresAt ≤ now := by
      intro row hrow
      rw [Session.tick_store, hstore] at hrow
      refine hdead row ?_
      rw [KeyStore.entry, hid]
      exact hrow
    refine wp_mono (walDecrypt_dead hK hid hdead')
      (fun outcome t ⟨plaintext, houtcome, hdecrypted⟩ => ⟨fun _ _ => hstore, fun _ => ?_⟩)
      fun _ _ _ => hstore
    subst houtcome
    rw [Session.tick_store, hstore] at hdecrypted
    refine ⟨bytes, _, rfl, hdecrypted, entry_eq_some.mpr ⟨bytes, hid, ?_⟩⟩
    obtain ⟨_, _, -, -, entries, hdb', hentry, -⟩ := hdecrypted
    rw [Session.tick_store, Session.commit_store, hdb', hK.tables_withTables]
    exact hentry

end call

/-! ## What stays -/

section keeps

variable {K} {sha256} {exportSnapshot} {env : Surroundings M} {now : ℤ} {db db' : M.Db}

/-- **Entries stay until they expire.** -/
def Keeps (K : KeyStore M C) (now : ℤ) (db db' : M.Db) : Prop :=
  K.OwnEntries db → K.OwnEntries db' ∧ ∀ k row,
    (K.tables db).decryptedApplicationMessages.get k = some row → now < row.expiresAt →
      (K.tables db').decryptedApplicationMessages.get k = some row

theorem keeps_of_entries (h : (K.tables db').decryptedApplicationMessages =
    (K.tables db).decryptedApplicationMessages) : Keeps K now db db' := by
  intro hown
  refine ⟨fun row hrow => hown row ?_, fun k row hrow _ => ?_⟩
  · rw [← h]
    exact hrow
  · rw [h]
    exact hrow

theorem keeps_of_store {s t : Session M} (h : t.store = s.store) :
    Keeps K now s.store t.store := keeps_of_entries (by rw [h])

theorem keeps_refl : Keeps K now db db := keeps_of_entries rfl

theorem Keeps.trans {db'' : M.Db} (h : Keeps K now db db') (h' : Keeps K now db' db'') :
    Keeps K now db db'' := by
  intro hown
  obtain ⟨hown', hkept⟩ := h hown
  obtain ⟨hown'', hkept'⟩ := h' hown'
  exact ⟨hown'', fun k row hrow hlive => hkept' k row (hkept k row hrow hlive) hlive⟩

/-- What is kept at one time was kept before. -/
theorem Keeps.mono {later : ℤ} (h : Keeps K now db db') (hle : now ≤ later) :
    Keeps K later db db' := fun hown =>
  ⟨(h hown).1, fun k row hrow hlive => (h hown).2 k row hrow (by omega)⟩

theorem Decrypted.keeps (hK : K.Lawful) {groupId : String} {message : Bytes}
    {entry : DecryptedMessageRow} (hversion : entry.providerVersion = Storage.storageProviderVersion)
    (hdead : ∀ row, (K.tables db).decryptedApplicationMessages.get entry.key = some row →
      row.expiresAt ≤ now) (h : Decrypted K env groupId message entry db db') :
    Keeps K now db db' := by
  obtain ⟨s, s', -, -, entries, rfl, hentry, hothers⟩ := h
  intro hown
  rw [KeyStore.OwnEntries, hK.tables_withTables]
  refine ⟨fun row hrow => ?_, fun k row hrow hlive => ?_⟩
  · by_cases hk : row.key = entry.key
    · have hsame := Table.mem_rows_iff.mp hrow
      rw [hk, hentry] at hsame
      cases hsame
      exact hversion
    · have hold := (hothers _ hk).symm.trans (Table.mem_rows_iff.mp hrow)
      exact hown row (Table.mem_rows_iff.mpr hold)
  · refine (hothers k fun hk => ?_).trans hrow
    subst hk
    have := hdead row hrow
    omega

theorem process_keeps (hK : K.Lawful) (halone : ∀ t, env.others t = []) (client : UqMls)
    (groupId messageId : String) (message : Bytes) (s : Session M) (hown : K.OwnEntries s.store) :
    wp (processApplicationMessageWithWal K sha256 env client groupId messageId message now) s
      (fun _ t => Keeps K now s.store t.store) fun _ t => Keeps K now s.store t.store := by
  by_cases hdead : ∀ row, K.entry s.store groupId messageId = some row → row.expiresAt ≤ now
  · refine wp_mono (process_dead halone hK hdead)
      (fun plaintext t ⟨bytes, entry, hentry, hdecrypted, hstored⟩ => ?_) fun _ t ht => keeps_of_store ht
    obtain ⟨bytes', hid, hget⟩ := entry_eq_some.mp hstored
    have hkey : entry.key = (bytes', messageId) := (Table.get_eq_some_iff.mp hget).2
    subst hentry
    refine hdecrypted.keeps hK rfl fun row hrow => hdead row (entry_eq_some.mpr ⟨bytes', hid, ?_⟩)
    rw [← hkey]
    exact hrow
  push Not at hdead
  obtain ⟨row, hrow, hlive⟩ := hdead
  by_cases hintime : now + client.decryptedMessageTtlSeconds < 2 ^ 63
  · exact wp_mono (process_live halone hintime hK hrow (hown.version hrow) hlive)
      (fun _ t ht => keeps_of_store ht.2) fun _ t ht => keeps_of_store ht.2
  · exact (wp_of_error (process_late hintime s)).mpr keeps_refl

theorem prune_keeps (hK : K.Lawful) (s : Session M) :
    wp (pruneDecryptedApplicationMessages K env now) s
      (fun _ t => Keeps K now s.store t.store) fun _ t => Keeps K now s.store t.store := by
  rw [pruneDecryptedApplicationMessages, wp_mapError, wp_onTables]
  refine wp_mono (prune_spec (fun _ => rfl) _) (fun _ t ht => ?_) fun _ t ht => ?_
  · rw [KeyStore.put_store, ht]
    intro hown
    rw [KeyStore.OwnEntries, hK.tables_withTables]
    refine ⟨fun row hrow => hown row (List.mem_filter.mp hrow).1, fun k row hrow hlive => ?_⟩
    refine (Table.get_deleteWhere (t := (K.tables s.store).decryptedApplicationMessages) _).trans ?_
    rw [hrow, Option.filter_some, if_pos]
    simp [hlive]
  · rw [KeyStore.put_store, ht, KeyStore.view_store, hK.withTables_tables]
    exact keeps_refl

theorem provider_keeps (hK : K.Lawful) (hexport : Storage.Exports exportSnapshot) (s : Session M) :
    wp (onTables K (Storage.SqliteProvider.new exportSnapshot env.onTables)) s
      (fun _ t => Keeps K now s.store t.store) fun _ t => Keeps K now s.store t.store := by
  rw [wp_onTables]
  have hsame : ∀ t : Storage.Session, Storage.Moves exportSnapshot (K.view s).store t.store →
      Keeps K now s.store (K.put t s).store := by
    intro t ht
    refine keeps_of_entries ?_
    rw [KeyStore.put_store, hK.tables_withTables, ht.elsewhere]
    rfl
  exact wp_mono (Storage.new_moves hexport (fun _ => rfl) (K.view s) .refl) (fun _ t ht => hsame t ht)
    fun _ t ht => hsame t ht

theorem new_keeps (hK : K.Lawful) (hexport : Storage.Exports exportSnapshot) (hours : ℕ)
    (s : Session M) : wp (UqMls.new K exportSnapshot env hours now) s
      (fun _ t => Keeps K now s.store t.store) fun _ t => Keeps K now s.store t.store := by
  rw [UqMls.new, wp_bind]
  refine wp_ofResult (fun client _ => ?_) fun _ _ => keeps_refl
  rw [wp_bind, wp_mapError]
  refine wp_mono (useStatuses_store _ s) (fun _ t ht => ?_) fun _ t ht => keeps_of_store ht.1
  rw [← ht.1, wp_bind]
  refine wp_mono (provider_keeps hK hexport t) (fun _ u hu => ?_) fun _ u hu => hu
  rw [wp_bind, wp_mapError, wp_bind, wp_attempt]
  exact wp_mono (prune_keeps hK u) (fun _ v hv => hu.trans hv) fun _ v hv => hu.trans hv

/-- **A history keeps entries** until they expire. -/
theorem History.keeps (hK : K.Lawful) (hexport : Storage.Exports exportSnapshot) {t₀ t : ℤ}
    (hown : K.OwnEntries db) (h : History K sha256 exportSnapshot db t₀ db' t) (hnow : t ≤ now) :
    Keeps K now db db' := by
  induction h with
  | start => exact keeps_refl
  | process client groupId messageId message _ hle halone hstore ih =>
    subst hstore
    have hbefore := ih (by omega)
    exact hbefore.trans (.mono (final_of_wp (process_keeps hK halone client groupId messageId
      message _ (hbefore hown).1)) hnow)
  | prune _ hle _ hstore ih =>
    subst hstore
    exact (ih (by omega)).trans ((final_of_wp (prune_keeps hK _)).mono hnow)
  | reopen hours _ hle _ hstore ih =>
    subst hstore
    exact (ih (by omega)).trans ((final_of_wp (new_keeps hK hexport hours _)).mono hnow)

end keeps

/-- **A message is decrypted once**: after any history, a call whose message has no entry that is
alive decrypts it and stores its entry, or it fails and changes nothing; as long as an entry is
alive the calls change nothing, and unless they are too late for an expiry of their own, or a
failure hits them, they reply with its plaintext to its ciphertext and with a conflict to any
other. -/
theorem decrypt_once {K : KeyStore M C} (hK : K.Lawful) (hsha : Function.Injective sha256)
    (hexport : Storage.Exports exportSnapshot) {db₀ db : M.Db} {t₀ t now : ℤ}
    (hown : K.OwnEntries db₀) (h : History K sha256 exportSnapshot db₀ t₀ db t) (hnow : t ≤ now)
    {env : Surroundings M} (halone : ∀ t, env.others t = []) (client : UqMls)
    (groupId messageId : String) (message : Bytes) {s : Session M} (hs : s.store = db) :
    let r := (processApplicationMessageWithWal K sha256 env client groupId messageId message now).run s
    ((∀ row, K.entry db groupId messageId = some row → row.expiresAt ≤ now) →
      (∃ e, outcome r = .error e) ∧ (final r).store = db ∨
      ∃ plaintext, outcome r = .ok plaintext ∧ StoresEntry K sha256 env client groupId messageId
        message now plaintext db (final r).store) ∧
    (∀ row ciphertext, K.entry db₀ groupId messageId = some row →
      row.ciphertextDigest = sha256 ciphertext → now < row.expiresAt →
      (final r).store = db ∧ outcome r =
        if now + client.decryptedMessageTtlSeconds < 2 ^ 63 then
          unlessHit env.fault s.time
            (if message = ciphertext then .ok row.plaintext else .error .messageIdConflict)
        else .error .invalidDecryptedMessageTtl) ∧
    K.OwnEntries (final r).store := by
  intro r
  obtain ⟨hown', hkept⟩ := h.keeps hK hexport hown hnow hown
  subst hs
  refine ⟨fun hdead => ?_, fun row ciphertext hrow hdigest hlive => ?_, ?_⟩
  · exact result_of_wp (P := fun reply (u : Session M) => (∃ e, reply = .error e) ∧ u.store = s.store ∨
      ∃ plaintext, reply = .ok plaintext ∧ StoresEntry K sha256 env client groupId messageId message
        now plaintext s.store u.store)
      (wp_mono (process_dead halone hK hdead) (fun plaintext u hu => .inr ⟨plaintext, rfl, hu⟩)
        fun e u hu => .inl ⟨⟨e, rfl⟩, hu⟩)
  · obtain ⟨bytes, hid, hget⟩ := entry_eq_some.mp hrow
    have hrow' : K.entry s.store groupId messageId = some row :=
      entry_eq_some.mpr ⟨bytes, hid, hkept _ row hget hlive⟩
    by_cases hintime : now + client.decryptedMessageTtlSeconds < 2 ^ 63
    · have hcall := result_of_wp (P := fun reply (u : Session M) => reply = unlessHit env.fault s.time
        (if row.ciphertextDigest = sha256 message then .ok row.plaintext
          else .error .messageIdConflict) ∧ u.store = s.store)
        (process_live halone hintime hK hrow' (hown.version hrow) hlive)
      rw [if_pos hintime]
      refine ⟨hcall.2, hcall.1.trans ?_⟩
      rw [hdigest]
      congr 1
      exact if_congr (hsha.eq_iff.trans eq_comm) rfl rfl
    · rw [if_neg hintime]
      have hlate : r = .error .invalidDecryptedMessageTtl s := process_late hintime s
      rw [hlate]
      exact ⟨rfl, rfl⟩
  · exact (final_of_wp (process_keeps hK halone client groupId messageId message s hown') hown').1

end KChat.Mls
