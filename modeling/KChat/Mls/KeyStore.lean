import KChat.Mls.Core
import KChat.Storage.Migration

/-!
# The tables of the storage provider under OpenMLS

The key store of OpenMLS is the database whose tables the storage provider keeps. `KeyStore` says
where they are in it.

* `KeyStore`, `KeyStore.Lawful`: the tables of a key store, and what OpenMLS leaves alone in them.
* `onTables`: a statement of the storage provider on the key store. **`wp_onTables`**.
-/

namespace KChat.Mls

open Lib

open Storage (Codec Database)

/-- **The tables of a key store**; `groupId` is `GroupId::from_slice` on the bytes of a text. -/
structure KeyStore (M : OpenMls) (C : Codec) where
  tables : M.Db → Database
  withTables : Database → M.Db → M.Db
  groupId : String → C.Carrier .groupId

variable {M : OpenMls} {C : Codec} {α : Type}

/-- The methods that OpenMLS calls do not use the table of decrypted messages. -/
structure KeyStore.Lawful (K : KeyStore M C) : Prop where
  tables_withTables : ∀ tables db, K.tables (K.withTables tables db) = tables
  withTables_tables : ∀ db, K.withTables (K.tables db) db = db
  processMessage : ∀ message fault s,
    (K.tables (final ((M.processMessage message fault).run s)).world).decryptedApplicationMessages =
      (K.tables s.world).decryptedApplicationMessages

/-- The failures that hit the tables; no one else is at work on them. -/
def Surroundings.onTables (env : Surroundings M) : Storage.Surroundings where
  others _ := []
  fault := env.fault

namespace KeyStore

variable (K : KeyStore M C)

/-- The tables of a session. -/
def view (s : Session M) : Storage.Session := ⟨K.tables s.store, (), s.time, s.seen⟩

/-- A session with other tables. -/
def put (t : Storage.Session) (s : Session M) : Session M where
  store := K.withTables t.store s.store
  beside := s.beside
  time := t.time
  seen := t.seen

@[simp] theorem put_store (t : Storage.Session) (s : Session M) :
    (K.put t s).store = K.withTables t.store s.store := rfl

@[simp] theorem put_time (t : Storage.Session) (s : Session M) : (K.put t s).time = t.time := rfl

@[simp] theorem put_seen (t : Storage.Session) (s : Session M) : (K.put t s).seen = t.seen := rfl

@[simp] theorem view_store (s : Session M) : (K.view s).store = K.tables s.store := rfl

@[simp] theorem view_time (s : Session M) : (K.view s).time = s.time := rfl

end KeyStore

/-- What the storage provider does, on the key store. -/
def onTables (K : KeyStore M C) (x : Storage.Action α) : EStateM String (Session M) α :=
  zoom K.view K.put x

@[simp] theorem wp_onTables {K : KeyStore M C} {x : Storage.Action α} {s : Session M}
    {Q : α → Session M → Prop} {E : String → Session M → Prop} : wp (onTables K x) s Q E ↔
      wp x (K.view s) (fun a t => Q a (K.put t s)) fun e t => E e (K.put t s) := by
  rw [onTables, wp_zoom]

end KChat.Mls
