import KChat.Mls.OpenMls

/-!
# Errors, the provider and the group statuses

* `Error`, `Error.display`: the errors of the core and the texts they display.
* `Session`: the key store, the table of group statuses beside it, and the time.
* `use`, `useStore`: one call of OpenMLS; `transaction`: a closure in a transaction of the key store.
* `getGroupPendingOperation`, `insertOrUpdateGroupStatus`, `deleteGroupStatus`.
-/

namespace KChat.Mls

open Lib

/-! ## Errors -/

/-- The errors of the core and of the calls above it. -/
inductive Error
  | mls (text : String)
  | crypto (text : String)
  | addMembers (text : String)
  | newGroup (text : String)
  | processMessage (text : String)
  | mergeCommit (text : String)
  | mergePendingCommit (text : String)
  | removeMembers (text : String)
  | updateLeafNode (text : String)
  | invalidOperationMessage
  | invalidWelcomeMessage
  | invalidApplicationMessage
  | invalidProposalMessage
  | invalidGroupInfo
  | welcome (text : String)
  | protocolMessage (text : String)
  | storage (text : String)
  | keyPackageVerify (text : String)
  | groupIsNotExisted
  | groupIsAlreadyExisted
  | missingRatchetTree
  | credentialIsExisted
  | sqlite (text : String)
  | missingOwnLeafNodeInGroup
  | missingSignatureKeyPair
  | someMembersAlreadyExistedInGroup
  | externalCommitBuilder (text : String)
  | externalCommitBuilderFinalize (text : String)
  | createCommit (text : String)
  | reAdd (text : String)
  | commitBuilderStage (text : String)
  | invalidDecryptedMessageTtl
  | messageIdConflict
  deriving DecidableEq, Repr

/-- What an error displays. -/
def Error.display : Error → String
  | .mls text => "MLS error: " ++ text
  | .crypto text => "Crypto error: " ++ text
  | .addMembers text => "Add members error: " ++ text
  | .newGroup text => "New group error: " ++ text
  | .processMessage text => "Process message error: " ++ text
  | .mergeCommit text => "Merge commit error: " ++ text
  | .mergePendingCommit text => "Merge pending commit error: " ++ text
  | .removeMembers text => "Remove members error: " ++ text
  | .updateLeafNode text => "Update leaf node error: " ++ text
  | .invalidOperationMessage => "Invalid operation message"
  | .invalidWelcomeMessage => "Invalid welcome message"
  | .invalidApplicationMessage => "Invalid application message"
  | .invalidProposalMessage => "Invalid proposal message"
  | .invalidGroupInfo => "Invalid group info"
  | .welcome text => "Welcome error: " ++ text
  | .protocolMessage text => "Protocol message error: " ++ text
  | .storage text => "Storage error: " ++ text
  | .keyPackageVerify text => "Key package verify error: " ++ text
  | .groupIsNotExisted => "Group is not existed"
  | .groupIsAlreadyExisted => "Group is already existed"
  | .missingRatchetTree => "Missing ratchet tree error"
  | .credentialIsExisted => "Credential is existed."
  | .sqlite text => "Sqlite error: " ++ text
  | .missingOwnLeafNodeInGroup => "Missing own leaf node in group"
  | .missingSignatureKeyPair => "Missing signature key pair"
  | .someMembersAlreadyExistedInGroup => "Some members already existed in group"
  | .externalCommitBuilder text => "External commit builder error: " ++ text
  | .externalCommitBuilderFinalize text => "External commit builder finalize error: " ++ text
  | .createCommit text => "Create commit error: " ++ text
  | .reAdd text => "Re-add error: " ++ text
  | .commitBuilderStage text => "Commit build stage error: " ++ text
  | .invalidDecryptedMessageTtl =>
    "Decrypted message TTL must be greater than zero and fit in seconds"
  | .messageIdConflict => "Message ID is already bound to different ciphertext"

/-! ## Sessions -/

/-- The rows of the status table: group id and pending operation. -/
abbrev GroupStatuses : Type := List (String × String)

/-- The key store, the group statuses and the time. -/
abbrev Session (M : OpenMls) : Type := Lib.Session M.Db GroupStatuses

/-- What other writers and failures do to the key store. A failure is what its error displays. -/
abbrev Surroundings (M : OpenMls) : Type := Lib.Surroundings M.Db String

/-- A computation on a session. -/
abbrev Action (M : OpenMls) (α : Type) : Type := EStateM Error (Session M) α

/-- A computation on a group in memory and a session. -/
abbrev GroupAction (M : OpenMls) (α : Type) : Type := EStateM Error (Owning M.Group (Session M)) α

variable {M : OpenMls} {α : Type} (env : Surroundings M)

/-- A method of the group, in a transaction. -/
def use (wrap : String → Error) (method : M.GroupMethod α) : GroupAction M α :=
  mapError wrap (call env method)

/-- A function of the store, in a transaction. -/
def useStore (wrap : String → Error) (op : Option String → EStateM String M.Db α) : Action M α :=
  unowned (mapError wrap (call env fun fault => onWorld (op fault)))

/-- `SqliteProvider::transaction`: a closure's error comes back as the error of the store that
displays its text. -/
def transaction (x : Action M α) : EStateM String (Session M) α :=
  unowned (Lib.transaction env Error.display (onWorld x))

/-- A transaction whose closure changes a group of the caller's. -/
def transactionOn (x : GroupAction M α) : EStateM String (Owning M.Group (Session M)) α :=
  Lib.transaction env Error.display x

section rules

variable {env} {Q : α → Owning M.Group (Session M) → Prop}
  {E : Error → Owning M.Group (Session M) → Prop}

theorem wp_use {wrap : String → Error} {method : M.GroupMethod α} {s : Owning M.Group (Session M)} :
    wp (use env wrap method) s Q E ↔ wp (method (env.fault s.world.time)) ⟨s.self, s.world.store⟩
      (fun a t => Q a ⟨t.self, { s.world with store := t.world }.tick⟩)
      fun e t => E (wrap e) ⟨t.self, { s.world with store := t.world }.tick⟩ := by
  rw [use, wp_mapError, wp_call]

theorem wp_useStore {wrap : String → Error} {op : Option String → EStateM String M.Db α}
    {s : Session M} {Q : α → Session M → Prop} {E : Error → Session M → Prop} :
    wp (useStore env wrap op) s Q E ↔ wp (op (env.fault s.time)) s.store
      (fun a db => Q a { s with store := db }.tick)
      fun e db => E (wrap e) { s with store := db }.tick := by
  rw [useStore, wp_unowned, wp_mapError, wp_call, wp_onWorld]

/-- What a transaction without an object of its own does, read off its closure. -/
theorem wp_transaction {x : Action M α} {s : Session M} {Q : α → Session M → Prop}
    {E : String → Session M → Prop}
    (hbegin : ∀ e, env.fault s.time = some e → E e (s.await env).tick)
    (hbody : env.fault s.time = none → wp x (s.await env).tick
      (fun a t =>
        (∀ e, env.fault t.time = some e → E e (t.rollback (s.await env)).tick) ∧
        (env.fault t.time = none → Q a (t.commit (s.await env)).tick))
      fun e t => E e.display (t.rollback (s.await env))) :
    wp (transaction env x) s Q E := by
  rw [transaction, wp_unowned]
  exact Lib.wp_transaction hbegin fun h => wp_onWorld.mpr (hbody h)

variable (env) in
/-- A transaction that fails leaves nothing behind, and while one runs the others wait. -/
theorem transaction_undone (x : Action M α) (s : Session M) : wp (transaction env x) s
    (fun _ t => t.seen = (s.await env).seen)
    fun _ t => t.store = (s.await env).store ∧ t.seen = (s.await env).seen := by
  rw [transaction, wp_unowned]
  exact wp_mono (wp_and Lib.transaction_error transaction_seen) (fun _ _ h => h.2) fun _ _ h => h

variable (env) in
theorem transactionOn_undone (x : GroupAction M α) (s : Owning M.Group (Session M)) :
    wp (transactionOn env x) s (fun _ t => t.world.seen = (s.world.await env).seen)
      fun _ t => t.world.store = (s.world.await env).store ∧
        t.world.seen = (s.world.await env).seen :=
  wp_mono (wp_and Lib.transaction_error transaction_seen) (fun _ _ h => h.2) fun _ _ h => h

end rules

/-! ## Group statuses -/

inductive GroupPendingOperation
  | createGroup | joinByExternalCommit | leaveGroup | updateTree | none
  deriving DecidableEq, Repr

def GroupPendingOperation.ofRow : Option String → GroupPendingOperation
  | some "create_group" => .createGroup
  | some "join_by_external_commit" => .joinByExternalCommit
  | some "leave_group" => .leaveGroup
  | some "update_tree" => .updateTree
  | _ => .none

def GroupPendingOperation.toRow : GroupPendingOperation → String
  | .createGroup => "create_group"
  | .joinByExternalCommit => "join_by_external_commit"
  | .leaveGroup => "leave_group"
  | .updateTree => "update_tree"
  | .none => "none"

theorem GroupPendingOperation.ofRow_toRow (op : GroupPendingOperation) :
    ofRow (some op.toRow) = op := by
  cases op <;> decide

/-- One use of the status table. -/
def useStatuses (f : GroupStatuses → α × GroupStatuses) : Action M α := fun s =>
  match env.fault s.time with
  | some e => .error (.sqlite e) s.tick
  | none => .ok (f s.beside).1 { s with beside := (f s.beside).2 }.tick

variable {env} in
theorem wp_useStatuses {f : GroupStatuses → α × GroupStatuses} {s : Session M}
    {Q : α → Session M → Prop} {E : Error → Session M → Prop}
    (hfault : ∀ e, env.fault s.time = some e → E (.sqlite e) s.tick)
    (h : env.fault s.time = none → Q (f s.beside).1 { s with beside := (f s.beside).2 }.tick) :
    wp (useStatuses env f) s Q E := by
  have hrun : (useStatuses env f).run s = match env.fault s.time with
    | some e => .error (.sqlite e) s.tick
    | none => .ok (f s.beside).1 { s with beside := (f s.beside).2 }.tick := rfl
  cases hf : env.fault s.time with
  | some e =>
    rw [hf] at hrun
    exact (wp_of_error hrun).mpr (hfault e hf)
  | none =>
    rw [hf] at hrun
    exact (wp_of_ok hrun).mpr (h hf)

def getGroupPendingOperation (groupId : String) : Action M (Option String) :=
  useStatuses env fun rows => ((rows.find? (·.1 == groupId)).map Prod.snd, rows)

def insertOrUpdateGroupStatus (groupId : String) (op : GroupPendingOperation) : Action M Unit :=
  useStatuses env fun rows => ((), (groupId, op.toRow) :: rows.filter (·.1 != groupId))

def deleteGroupStatus (groupId : String) : Action M Unit :=
  useStatuses env fun rows => ((), rows.filter (·.1 != groupId))

/-! ### Rows -/

/-- The status of a group. -/
def statusOf (groupId : String) (statuses : GroupStatuses) : Option String :=
  (statuses.find? (·.1 == groupId)).map Prod.snd

section rows

variable {groupId other : String} {statuses : GroupStatuses} {op : GroupPendingOperation}

theorem statusOf_insert : statusOf groupId
    ((groupId, op.toRow) :: statuses.filter (·.1 != groupId)) = some op.toRow := by
  simp [statusOf]

theorem statusOf_filter : statusOf groupId (statuses.filter (·.1 != groupId)) = none := by
  simp [statusOf]

theorem statusOf_filter_of_ne (h : other ≠ groupId) :
    statusOf other (statuses.filter (·.1 != groupId)) = statusOf other statuses := by
  rw [statusOf, statusOf, List.find?_filter]
  congr 2
  funext row
  by_cases hrow : row.1 = other
  · simp [hrow, h]
  · simp [hrow]

theorem statusOf_insert_of_ne (h : other ≠ groupId) : statusOf other
    ((groupId, op.toRow) :: statuses.filter (·.1 != groupId)) = statusOf other statuses := by
  rw [statusOf, List.find?_cons_of_neg]
  · exact statusOf_filter_of_ne h
  · simpa using fun h' => h h'.symm

end rows

end KChat.Mls
