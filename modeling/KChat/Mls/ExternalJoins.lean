import KChat.Mls.Operations

/-!
# Groups that are joined with external commits, and the epochs that are reported

A group is joined by its group info; what is pending is recorded for the group id of the arguments.
While that is recorded, the epoch before the external commit is the one that counts.

* `UqMls.joinByExternalCommit`, `UqMls.batchJoinByExternalCommit`.
* `Binding`: how a binding counts epochs, `Binding.uniffi` and `Binding.napi`. `UqMls.groupEpoch`,
  `UqMls.groupContext`.
* `ClientCall`, `ClientCall.run`: all the operations, these among them.
-/

namespace KChat.Mls

open Lib

open Storage (Codec)

variable {M : CommitMls} (env : Surroundings M.toOpenMls)

/-! ## Joining -/

/-- **A group is joined**, and the external commit is recorded for `groupId`; `config` fails where
the ciphersuite of the client is none. -/
def UqMls.joinByExternalCommit (clientId groupId : String) (groupInfo : Bytes)
    (config : Except Error M.JoinConfig) (publicKey : Option Bytes) :
    Action M.toOpenMls CommitResult := do
  let config ← ofResult config
  recording
    (mapError .sqlite (transaction env
      (KChat.Mls.joinByExternalCommit env clientId groupInfo config publicKey)))
    (insertOrUpdateGroupStatus env groupId .joinByExternalCommit)

structure JoinByExternalCommitArgs where
  groupId : String
  groupInfo : Bytes

structure WrappedJoinByExternalCommitResult where
  groupId : String
  result : Option CommitResult
  err : Option String

/-- One group of many. -/
def joinOne (clientId : String) (config : M.JoinConfig) (publicKey : Option Bytes)
    (arg : JoinByExternalCommitArgs) : Action M.toOpenMls WrappedJoinByExternalCommitResult :=
  fun s =>
    match (transaction env
      (KChat.Mls.joinByExternalCommit env clientId arg.groupInfo config publicKey)).run s with
    | .ok result s =>
      let wrapped : WrappedJoinByExternalCommitResult := ⟨arg.groupId, some result, none⟩
      ((fun _ => wrapped) <$>
        attempt (insertOrUpdateGroupStatus env arg.groupId .joinByExternalCommit)).run s
    | .error err s => .ok ⟨arg.groupId, none, some err⟩ s

def UqMls.batchJoinByExternalCommit (clientId : String) (args : List JoinByExternalCommitArgs)
    (config : Except Error M.JoinConfig) (publicKey : Option Bytes) :
    Action M.toOpenMls (List WrappedJoinByExternalCommitResult) := do
  let config ← ofResult config
  args.mapM (joinOne env clientId config publicKey)

/-! ## Epochs -/

/-- **How a binding counts epochs**: the epoch of a group, and the one before it. -/
structure Binding where
  epoch : ℕ → ℤ
  previous : ℕ → ℤ

/-- `as i64`, and what `i64` wraps to. -/
def asI64 (z : ℤ) : ℤ := z.bmod (2 ^ 64)

theorem asI64_eq {z : ℤ} (hle : -2 ^ 63 ≤ z) (hlt : z < 2 ^ 63) : asI64 z = z :=
  Int.bmod_eq_of_le_mul_two (by omega) (by omega)

/-- Epochs are `i64`, from which one is subtracted. -/
def Binding.uniffi : Binding where
  epoch e := asI64 e
  previous e := asI64 (asI64 e - 1)

/-- Epochs are `BigInt`, from `u64` with `saturating_sub`. -/
def Binding.napi : Binding where
  epoch e := e
  previous e := (e - 1 : ℕ)

@[simp] theorem Binding.uniffi_epoch (e : ℕ) : uniffi.epoch e = asI64 e := by simp only [uniffi]

@[simp] theorem Binding.uniffi_previous (e : ℕ) : uniffi.previous e = asI64 (asI64 e - 1) := by
  simp only [uniffi]

@[simp] theorem Binding.napi_epoch (e : ℕ) : napi.epoch e = e := rfl

@[simp] theorem Binding.napi_previous (e : ℕ) : napi.previous e = (e - 1 : ℕ) := rfl

/-- The epoch while `pendingOperation` is recorded. -/
def Binding.pendingEpoch (binding : Binding) (pendingOperation : Option String) (e : ℕ) : ℤ :=
  if pendingOperation = some GroupPendingOperation.joinByExternalCommit.toRow then
    binding.previous e
  else binding.epoch e

/-- What is used of the context of a group. -/
structure GroupContext where
  epoch : ℕ
  treeHash : Bytes

/-- The context that is stored of a group is that of the group. -/
def OpenMls.ContextOf (M : OpenMls)
    (context : Option String → M.Db → String → Except String (Option GroupContext)) : Prop :=
  ∀ fault db id c, context fault db id = .ok (some c) →
    ∃ g, M.stored db id = some g ∧ c.epoch = M.epoch g

variable (context : Option String → M.Db → String → Except String (Option GroupContext))

/-- `core::group_context`, outside of a transaction. -/
def groupContext (groupId : String) : Action M.toOpenMls GroupContext := do
  modify (Session.await env)
  match ← look env fun fault db => context fault db groupId with
  | .ok (some c) => return c
  | .ok none => throw .groupIsNotExisted
  | .error text => throw (.storage text)

/-- What is recorded; nothing if it cannot be read. -/
def pendingOperation (groupId : String) : Action M.toOpenMls (Option String) := do
  match ← attempt (getGroupPendingOperation env groupId) with
  | .ok row => return row
  | .error _ => return none

structure WrappedGroupEpochResult where
  groupId : String
  epoch : ℤ
  treeHash : Bytes
  err : Option String
  pendingOperation : Option String
  deriving DecidableEq

def UqMls.groupEpoch (binding : Binding) (groupId : String) :
    Action M.toOpenMls WrappedGroupEpochResult := do
  let op ← pendingOperation env groupId
  match ← attempt (groupContext env context groupId) with
  | .ok context =>
    return { groupId := groupId
             epoch := binding.pendingEpoch op context.epoch
             treeHash := context.treeHash
             err := none
             pendingOperation := op }
  | .error err =>
    return { groupId := groupId
             epoch := -1
             treeHash := []
             err := some err.display
             pendingOperation := none }

structure WrappedGroupContextResult where
  groupId : String
  currentEpoch : ℤ
  pendingEpoch : ℤ
  treeHash : Bytes
  err : Option String
  pendingOperation : Option String
  deriving DecidableEq

def UqMls.groupContext (binding : Binding) (groupId : String) :
    Action M.toOpenMls WrappedGroupContextResult := do
  let op ← pendingOperation env groupId
  match ← attempt (KChat.Mls.groupContext env context groupId) with
  | .ok context =>
    return { groupId := groupId
             currentEpoch := binding.epoch context.epoch
             pendingEpoch := binding.pendingEpoch op context.epoch
             treeHash := context.treeHash
             err := none
             pendingOperation := op }
  | .error err =>
    return { groupId := groupId
             currentEpoch := -1
             pendingEpoch := -1
             treeHash := []
             err := some err.display
             pendingOperation := none }

/-! ## Calls -/

/-- **A call of an operation**, those that join groups among them. -/
inductive ClientCall (M : CommitMls)
  | call (c : Call M)
  | joinByExternalCommit (clientId groupId : String) (groupInfo : Bytes)
    (config : Except Error M.JoinConfig) (publicKey : Option Bytes)
  | batchJoinByExternalCommit (clientId : String) (args : List JoinByExternalCommitArgs)
    (config : Except Error M.JoinConfig) (publicKey : Option Bytes)

variable {C : Codec} (K : KeyStore M.toOpenMls C) (recoverable : String → Bool)

/-- What a call does; its result is dropped. -/
def ClientCall.run : ClientCall M → Action M.toOpenMls Unit
  | .call c => c.run env K recoverable
  | .joinByExternalCommit clientId groupId groupInfo config publicKey =>
    (fun _ => ()) <$> UqMls.joinByExternalCommit env clientId groupId groupInfo config publicKey
  | .batchJoinByExternalCommit clientId args config publicKey =>
    (fun _ => ()) <$> UqMls.batchJoinByExternalCommit env clientId args config publicKey

end KChat.Mls
