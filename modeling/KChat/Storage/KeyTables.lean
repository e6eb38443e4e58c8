import KChat.Storage.Schema

/-!
# Reading and writing the tables of keys

The functions of the storage provider on the tables whose rows belong to no group, each on a
connection of the pool and in a transaction.

* `StorableKeyPackage`, `StorablePskBundle`, `StorableEncryptionKeyPair`,
  `StorableSignatureKeyPairs`.
-/

namespace KChat.Storage

open Lib

variable {C : Codec} (env : Surroundings)

/-! ## Key packages -/

namespace StorableKeyPackage

/-- Rows of another version of the provider are passed over, here and below. -/
def load (keyPackageRef : C.Carrier .hashReference) : Action (Option (C.Carrier .keyPackage)) :=
  pooled env do
    let keyPackageRef ← ofResult (C.toVec keyPackageRef)
    queryRow (fun db => db.keyPackages.rows.filter fun row =>
      row.keyPackageRef = keyPackageRef ∧ row.providerVersion = storageProviderVersion)
      fun row => C.fromSlice row.keyPackage

def loadInTx (keyPackageRef : C.Carrier .hashReference) : Action (Option (C.Carrier .keyPackage)) :=
  inTx env do
    let keyPackageRef ← ofResult (C.toVec keyPackageRef)
    queryRow (fun db => db.keyPackages.rows.filter fun row =>
      row.keyPackageRef = keyPackageRef ∧ row.providerVersion = storageProviderVersion)
      fun row => C.fromSlice row.keyPackage

/-- A key package that is stored again replaces its row. -/
def store (keyPackageRef : C.Carrier .hashReference) (keyPackage : C.Carrier .keyPackage) :
    Action Unit :=
  pooled env do
    let keyPackageRef ← ofResult (C.toVec keyPackageRef)
    let keyPackage ← ofResult (C.toVec keyPackage)
    execute fun db => { db with
      keyPackages := db.keyPackages.insertOrReplace
        { keyPackageRef, keyPackage, providerVersion := storageProviderVersion } }

def storeInTx (keyPackageRef : C.Carrier .hashReference) (keyPackage : C.Carrier .keyPackage) :
    Action Unit :=
  inTx env do
    let keyPackageRef ← ofResult (C.toVec keyPackageRef)
    let keyPackage ← ofResult (C.toVec keyPackage)
    execute fun db => { db with
      keyPackages := db.keyPackages.insertOrReplace
        { keyPackageRef, keyPackage, providerVersion := storageProviderVersion } }

/-- Nothing is wrong where there is no such row. -/
def deleteKeyPackage (keyPackageRef : C.Carrier .hashReference) : Action Unit :=
  pooled env do
    let keyPackageRef ← ofResult (C.toVec keyPackageRef)
    execute fun db => { db with
      keyPackages := db.keyPackages.deleteWhere fun row =>
        row.keyPackageRef = keyPackageRef ∧ row.providerVersion = storageProviderVersion }

def deleteKeyPackageInTx (keyPackageRef : C.Carrier .hashReference) : Action Unit :=
  inTx env do
    let keyPackageRef ← ofResult (C.toVec keyPackageRef)
    execute fun db => { db with
      keyPackages := db.keyPackages.deleteWhere fun row =>
        row.keyPackageRef = keyPackageRef ∧ row.providerVersion = storageProviderVersion }

end StorableKeyPackage

/-! ## Pre-shared keys -/

namespace StorablePskBundle

/-- The pre-shared key of an id, with what OpenMLS keeps beside it. -/
def load (pskId : C.Carrier .pskId) : Action (Option (C.Carrier .pskBundle)) :=
  pooled env do
    let pskId ← ofResult (C.toVec pskId)
    queryRow (fun db => db.psks.rows.filter fun row =>
      row.pskId = pskId ∧ row.providerVersion = storageProviderVersion)
      fun row => C.fromSlice row.pskBundle

def loadInTx (pskId : C.Carrier .pskId) : Action (Option (C.Carrier .pskBundle)) :=
  inTx env do
    let pskId ← ofResult (C.toVec pskId)
    queryRow (fun db => db.psks.rows.filter fun row =>
      row.pskId = pskId ∧ row.providerVersion = storageProviderVersion)
      fun row => C.fromSlice row.pskBundle

def store (pskId : C.Carrier .pskId) (psk : C.Carrier .pskBundle) :
    Action Unit :=
  pooled env do
    let pskId ← ofResult (C.toVec pskId)
    let pskBundle ← ofResult (C.toVec psk)
    execute fun db => { db with
      psks := db.psks.insertOrReplace
        { pskId, pskBundle, providerVersion := storageProviderVersion } }

def storeInTx (pskId : C.Carrier .pskId) (psk : C.Carrier .pskBundle) :
    Action Unit :=
  inTx env do
    let pskId ← ofResult (C.toVec pskId)
    let pskBundle ← ofResult (C.toVec psk)
    execute fun db => { db with
      psks := db.psks.insertOrReplace
        { pskId, pskBundle, providerVersion := storageProviderVersion } }

def delete (pskId : C.Carrier .pskId) : Action Unit :=
  pooled env do
    let pskId ← ofResult (C.toVec pskId)
    execute fun db => { db with
      psks := db.psks.deleteWhere fun row =>
        row.pskId = pskId ∧ row.providerVersion = storageProviderVersion }

def deleteInTx (pskId : C.Carrier .pskId) : Action Unit :=
  inTx env do
    let pskId ← ofResult (C.toVec pskId)
    execute fun db => { db with
      psks := db.psks.deleteWhere fun row =>
        row.pskId = pskId ∧ row.providerVersion = storageProviderVersion }

end StorablePskBundle

/-! ## Encryption keys -/

namespace StorableEncryptionKeyPair

/-- The key pair of an HPKE key that belongs to no epoch of a group. -/
def load (publicKey : C.Carrier .encryptionKey) : Action (Option (C.Carrier .hpkeKeyPair)) :=
  pooled env do
    let publicKey ← ofResult (C.toVec publicKey)
    queryRow (fun db => db.encryptionKeys.rows.filter fun row =>
      row.publicKey = publicKey ∧ row.providerVersion = storageProviderVersion)
      fun row => C.fromSlice row.keyPair

def loadInTx (publicKey : C.Carrier .encryptionKey) : Action (Option (C.Carrier .hpkeKeyPair)) :=
  inTx env do
    let publicKey ← ofResult (C.toVec publicKey)
    queryRow (fun db => db.encryptionKeys.rows.filter fun row =>
      row.publicKey = publicKey ∧ row.providerVersion = storageProviderVersion)
      fun row => C.fromSlice row.keyPair

def store (publicKey : C.Carrier .encryptionKey) (keyPair : C.Carrier .hpkeKeyPair) :
    Action Unit :=
  pooled env do
    let publicKey ← ofResult (C.toVec publicKey)
    let keyPair ← ofResult (C.toVec keyPair)
    execute fun db => { db with
      encryptionKeys := db.encryptionKeys.insertOrReplace
        { publicKey, keyPair, providerVersion := storageProviderVersion } }

def storeInTx (publicKey : C.Carrier .encryptionKey) (keyPair : C.Carrier .hpkeKeyPair) :
    Action Unit :=
  inTx env do
    let publicKey ← ofResult (C.toVec publicKey)
    let keyPair ← ofResult (C.toVec keyPair)
    execute fun db => { db with
      encryptionKeys := db.encryptionKeys.insertOrReplace
        { publicKey, keyPair, providerVersion := storageProviderVersion } }

def delete (publicKey : C.Carrier .encryptionKey) : Action Unit :=
  pooled env do
    let publicKey ← ofResult (C.toVec publicKey)
    execute fun db => { db with
      encryptionKeys := db.encryptionKeys.deleteWhere fun row =>
        row.publicKey = publicKey ∧ row.providerVersion = storageProviderVersion }

def deleteInTx (publicKey : C.Carrier .encryptionKey) : Action Unit :=
  inTx env do
    let publicKey ← ofResult (C.toVec publicKey)
    execute fun db => { db with
      encryptionKeys := db.encryptionKeys.deleteWhere fun row =>
        row.publicKey = publicKey ∧ row.providerVersion = storageProviderVersion }

end StorableEncryptionKeyPair

/-! ## Signature keys -/

namespace StorableSignatureKeyPairs

/-- The key pair of a public key; a client may have several. -/
def load (publicKey : C.Carrier .signaturePublicKey) :
    Action (Option (C.Carrier .signatureKeyPair)) :=
  pooled env do
    let publicKey ← ofResult (C.toVec publicKey)
    queryRow (fun db => db.signatureKeys.rows.filter fun row =>
      row.publicKey = publicKey ∧ row.providerVersion = storageProviderVersion)
      fun row => C.fromSlice row.signatureKey

def loadInTx (publicKey : C.Carrier .signaturePublicKey) :
    Action (Option (C.Carrier .signatureKeyPair)) :=
  inTx env do
    let publicKey ← ofResult (C.toVec publicKey)
    queryRow (fun db => db.signatureKeys.rows.filter fun row =>
      row.publicKey = publicKey ∧ row.providerVersion = storageProviderVersion)
      fun row => C.fromSlice row.signatureKey

def store (publicKey : C.Carrier .signaturePublicKey) (signatureKey : C.Carrier .signatureKeyPair) :
    Action Unit :=
  pooled env do
    let publicKey ← ofResult (C.toVec publicKey)
    let signatureKey ← ofResult (C.toVec signatureKey)
    execute fun db => { db with
      signatureKeys := db.signatureKeys.insertOrReplace
        { publicKey, signatureKey, providerVersion := storageProviderVersion } }

def storeInTx (publicKey : C.Carrier .signaturePublicKey)
    (signatureKey : C.Carrier .signatureKeyPair) : Action Unit :=
  inTx env do
    let publicKey ← ofResult (C.toVec publicKey)
    let signatureKey ← ofResult (C.toVec signatureKey)
    execute fun db => { db with
      signatureKeys := db.signatureKeys.insertOrReplace
        { publicKey, signatureKey, providerVersion := storageProviderVersion } }

def delete (publicKey : C.Carrier .signaturePublicKey) : Action Unit :=
  pooled env do
    let publicKey ← ofResult (C.toVec publicKey)
    execute fun db => { db with
      signatureKeys := db.signatureKeys.deleteWhere fun row =>
        row.publicKey = publicKey ∧ row.providerVersion = storageProviderVersion }

def deleteInTx (publicKey : C.Carrier .signaturePublicKey) : Action Unit :=
  inTx env do
    let publicKey ← ofResult (C.toVec publicKey)
    execute fun db => { db with
      signatureKeys := db.signatureKeys.deleteWhere fun row =>
        row.publicKey = publicKey ∧ row.providerVersion = storageProviderVersion }

end StorableSignatureKeyPairs

end KChat.Storage
