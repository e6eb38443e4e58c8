import KChat.Mls.Core

/-!
# The core: creating groups and making commits

* `CommitMls`: what else is used of OpenMLS to create a group and to build commits and external
  commits. A commit that was built is pending in its group; `pendingMembers` are the members once it
  is merged.
* `createGroup`, `addMembers`, `removeMembers`, `readd`, `updateLeafNode`, `joinByExternalCommit`,
  `clearPendingProposals`.
-/

namespace KChat.Mls

open Lib

/-- A member of a group and the index of its leaf. -/
structure Member (Credential : Type) where
  index : ℕ
  credential : Credential

/-- Why a key package does not verify. -/
inductive KeyPackageVerifyError
  | lifetimeError (text : String)
  | other (text : String)
  deriving DecidableEq, Repr

/-- **The libraries**, with the functions that build commits. -/
structure CommitMls extends OpenMls where
  KeyPackageIn : Type
  KeyPackage : Type
  CreateConfig : Type
  CommitBundle : Type
  ReAddBuilder : Type
  GroupInfo : Type
  RatchetTree : Type
  PublicGroup : Type
  ExternalCommitBuilder : Type
  groupMembers : Group → List (Member Credential)
  hasPendingCommit : Group → Bool
  /-- the members of the next epoch, if a commit is pending -/
  pendingMembers : Group → Option (List (Member Credential))
  /-- the identity of a basic credential -/
  basicIdentity : Credential → Option Bytes
  basicCredential : String → Credential
  deserializeKeyPackage : Bytes → Except String KeyPackageIn
  validate : KeyPackageIn → Except KeyPackageVerifyError KeyPackage
  keyPackageCredential : KeyPackage → Credential
  readSigner : Option String → Db → Bytes → Option Signer
  newSigner : Except String Signer
  storeSigner : Signer → Option String → EStateM String Db Unit
  newWithGroupId : CreateConfig → String → Signer → Credential → Option String →
    EStateM String Db Group
  addMembers : Signer → List KeyPackage → Option String →
    EStateM String (Owning Group Db) (MessageOut × MessageOut × Option MessageOut)
  removeMembers : Signer → List ℕ → Option String →
    EStateM String (Owning Group Db) (MessageOut × Option MessageOut)
  /-- those outside of the own partition are to be removed -/
  recoverForkByReadding : Group → List ℕ → Except String ReAddBuilder
  buildReAdd : ReAddBuilder → List KeyPackage → Signer → Option String →
    EStateM String (Owning Group Db) CommitBundle
  stageCommit : CommitBundle → Option String →
    EStateM String (Owning Group Db) (Option MessageOut × MessageOut × Option MessageOut)
  selfUpdate : Signer → Option String →
    EStateM String (Owning Group Db) (MessageOut × Option MessageOut)
  clearPendingProposals : Option String → EStateM String (Owning Group Db) Unit
  /-- a group info, alone or in a message; nothing if the message is something else -/
  deserializeGroupInfo : Bytes → Option GroupInfo
  ratchetTree : GroupInfo → Option RatchetTree
  treeMembers : RatchetTree → List (Member Credential)
  serializeGroupInfo : GroupInfo → Except String Bytes
  /-- the tree hash of the group context a serialized group info begins with -/
  contextTreeHash : Bytes → Except String Bytes
  publicGroup : Option String → Db → RatchetTree → GroupInfo → Option PublicGroup
  publicMembers : PublicGroup → List (Member Credential)
  buildExternalGroup : JoinConfig → GroupInfo → Credential → Signer → Option String →
    EStateM String Db ExternalCommitBuilder
  buildExternalCommit : ExternalCommitBuilder → Signer → Option String →
    EStateM String Db CommitBundle
  finalizeExternalCommit : CommitBundle → Option String →
    EStateM String Db (Group × MessageOut × Option MessageOut)

variable {M : CommitMls} (env : Surroundings M.toOpenMls)

/-! ## Identities and credentials -/

def asBytes (s : String) : Bytes := s.toUTF8.data.toList

/-- The credential is a basic one with one of the identities. -/
def hasIdentity (identities : List Bytes) (credential : M.Credential) : Bool :=
  match M.basicIdentity credential with
  | some identity => identities.contains identity
  | none => false

def findMembersByIdentity (members : List (Member M.Credential)) (identities : List Bytes) :
    List (Member M.Credential) :=
  members.filter fun member => hasIdentity (M := M) identities member.credential

def getIdentityFromKeyPackages (keyPackages : List M.KeyPackage) : List Bytes :=
  keyPackages.filterMap fun keyPackage => M.basicIdentity (M.keyPackageCredential keyPackage)

/-- The signer of a public key, or a new one. -/
def signerFor : Option Bytes → Action M.toOpenMls M.Signer
  | some publicKey => do
    let signer ← look env fun fault db => M.readSigner fault db publicKey
    orThrow signer .missingSignatureKeyPair
  | none => ofResult (M.newSigner.mapError .crypto)

def getCredentialWithKey (userId : String) (publicKey : Option Bytes) :
    Action M.toOpenMls (M.Credential × M.Signer) := do
  let signer ← signerFor env publicKey
  useStore env .storage (M.storeSigner signer)
  return (M.basicCredential userId, signer)

/-! ## Creating groups -/

def createGroup (creatorId groupId : String) (config : M.CreateConfig) (publicKey : Option Bytes) :
    Action M.toOpenMls M.Group := do
  let r ← getCredentialWithKey env creatorId publicKey
  useStore env .newGroup (M.newWithGroupId config groupId r.2 r.1)

/-! ## Commits of members -/

structure AddMembersResult where
  welcome : Bytes
  commit : Bytes
  groupInfo : Option Bytes
  currentEpoch : ℕ
  preTreeHash : Bytes

/-- The key packages that verify; those whose lifetime is over are passed over. -/
def verifiedKeyPackages : List Bytes → Except Error (List M.KeyPackage)
  | [] => .ok []
  | bytes :: rest => do
    let keyPackageIn ← (M.deserializeKeyPackage bytes).mapError .mls
    match M.validate keyPackageIn with
    | .ok keyPackage => return keyPackage :: (← verifiedKeyPackages rest)
    | .error (.lifetimeError _) => verifiedKeyPackages rest
    | .error (.other text) => throw (.keyPackageVerify text)

def serialize (message : M.MessageOut) : Except Error Bytes := (M.serialize message).mapError .mls

/-- **Members are added**, one for each key package, if none of them is a member already. -/
def addMembers (signer : M.Signer) (keyPackageIns : List Bytes) :
    GroupAction M.toOpenMls AddMembersResult := do
  let keyPackages ← ofResult (verifiedKeyPackages (M := M) keyPackageIns)
  if keyPackages = [] then
    throw (.addMembers "The lifetime of the all leaf node is not valid.")
  let identities := getIdentityFromKeyPackages keyPackages
  let g ← getSelf
  if findMembersByIdentity (M.groupMembers g) identities ≠ [] then
    throw .someMembersAlreadyExistedInGroup
  let preTreeHash := M.treeHash g
  let r ← use env .addMembers (M.addMembers signer keyPackages)
  let groupInfo ← ofResult (r.2.2.mapM (serialize (M := M)))
  let welcome ← ofResult (serialize (M := M) r.2.1)
  let commit ← ofResult (serialize (M := M) r.1)
  return { welcome := welcome
           commit := commit
           groupInfo := groupInfo
           currentEpoch := M.epoch (← getSelf)
           preTreeHash := preTreeHash }

/-- What a commit without a Welcome gives. -/
structure CommitResult where
  commit : Bytes
  groupInfo : Option Bytes
  currentEpoch : ℕ
  preTreeHash : Bytes

/-- **All leaves of some identities are removed.** -/
def removeMembers (signer : M.Signer) (memberIds : List String) :
    GroupAction M.toOpenMls CommitResult := do
  let g ← getSelf
  let indices := (findMembersByIdentity (M.groupMembers g) (memberIds.map asBytes)).map Member.index
  let preTreeHash := M.treeHash g
  let r ← use env .removeMembers (M.removeMembers signer indices)
  let groupInfo ← ofResult (r.2.mapM (serialize (M := M)))
  let commit ← ofResult (serialize (M := M) r.1)
  return { commit := commit
           groupInfo := groupInfo
           currentEpoch := M.epoch (← getSelf)
           preTreeHash := preTreeHash }

def updateLeafNode (signer : M.Signer) : GroupAction M.toOpenMls CommitResult := do
  let preTreeHash := M.treeHash (← getSelf)
  let r ← use env .updateLeafNode (M.selfUpdate signer)
  let commit ← ofResult (serialize (M := M) r.1)
  let groupInfo ← ofResult (r.2.mapM (serialize (M := M)))
  return { commit := commit
           groupInfo := groupInfo
           currentEpoch := M.epoch (← getSelf)
           preTreeHash := preTreeHash }

structure ReAddResult extends CommitResult where
  welcome : Option Bytes

/-- The key packages, all of which have to verify. -/
def validKeyPackages (keyPackageIns : List Bytes) : Except Error (List M.KeyPackage) :=
  keyPackageIns.mapM fun bytes => do
    let keyPackageIn ← (M.deserializeKeyPackage bytes).mapError .mls
    (M.validate keyPackageIn).mapError fun err =>
      match err with
      | .lifetimeError text | .other text => .keyPackageVerify text

/-- The indices of the members that are not re-added. -/
def ourPartition (g : M.Group) (memberIds : List String) : List ℕ :=
  let indices := (findMembersByIdentity (M.groupMembers g) (memberIds.map asBytes)).map Member.index
  ((M.groupMembers g).filter fun member => !indices.contains member.index).map Member.index

/-- **All leaves of some identities are removed, and members are added** for the key packages. -/
def readd (signer : M.Signer) (memberIds : List String)
    (keyPackageIns : List Bytes) :
    GroupAction M.toOpenMls ReAddResult := do
  let g ← getSelf
  let preTreeHash := M.treeHash g
  let builder ← ofResult
    ((M.recoverForkByReadding g (ourPartition (M := M) g memberIds)).mapError .reAdd)
  let keyPackages ← ofResult (validKeyPackages (M := M) keyPackageIns)
  let bundle ← use env .createCommit (M.buildReAdd builder keyPackages signer)
  let r ← use env .commitBuilderStage (M.stageCommit bundle)
  let welcome ← ofResult (r.1.mapM (serialize (M := M)))
  let groupInfo ← ofResult (r.2.2.mapM (serialize (M := M)))
  let commit ← ofResult (serialize (M := M) r.2.1)
  return { welcome := welcome
           commit := commit
           groupInfo := groupInfo
           currentEpoch := M.epoch (← getSelf)
           preTreeHash := preTreeHash }

def clearPendingProposals : GroupAction M.toOpenMls Unit :=
  use env .storage M.clearPendingProposals

/-! ## External commits -/

/-- The user is no member yet, as far as the public group can be built from the group info. -/
def checkNotMember (userId : String) (tree : M.RatchetTree) (info : M.GroupInfo) :
    Action M.toOpenMls Unit := do
  match ← look env fun fault db => M.publicGroup fault db tree info with
  | some publicGroup =>
    if findMembersByIdentity (M.publicMembers publicGroup) [asBytes userId] ≠ [] then
      throw .credentialIsExisted
  | none => return ()

/-- The group that is joined and its commit, behind the tree hash before. -/
def joinedGroup (userId : String) (groupInfo : Bytes) (config : M.JoinConfig)
    (publicKey : Option Bytes) :
    Action M.toOpenMls (Bytes × M.Group × M.MessageOut × Option M.MessageOut) := do
  let info ← orThrow (M.deserializeGroupInfo groupInfo) .invalidGroupInfo
  let tree ← orThrow (M.ratchetTree info) .missingRatchetTree
  let bytes ← ofResult ((M.serializeGroupInfo info).mapError .mls)
  let preTreeHash ← ofResult ((M.contextTreeHash bytes).mapError .mls)
  checkNotMember env userId tree info
  let r ← getCredentialWithKey env userId publicKey
  let builder ← useStore env .externalCommitBuilder (M.buildExternalGroup config info r.1 r.2)
  let bundle ← useStore env .createCommit (M.buildExternalCommit builder r.2)
  let r ← useStore env .externalCommitBuilderFinalize (M.finalizeExternalCommit bundle)
  return (preTreeHash, r)

/-- **A group is joined with an external commit.** -/
def joinByExternalCommit (userId : String) (groupInfo : Bytes)
    (config : M.JoinConfig) (publicKey : Option Bytes) : Action M.toOpenMls CommitResult := do
  let r ← joinedGroup env userId groupInfo config publicKey
  let groupInfo ← ofResult (r.2.2.2.mapM (serialize (M := M)))
  let commit ← ofResult (serialize (M := M) r.2.2.1)
  return { commit := commit
           groupInfo := groupInfo
           currentEpoch := M.epoch r.2.1 - 1
           preTreeHash := r.1 }

end KChat.Mls
