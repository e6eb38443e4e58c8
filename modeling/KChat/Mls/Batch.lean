import KChat.Mls.Core
import Mathlib.Data.Finset.Basic
import Mathlib.Data.List.AList
import Mathlib.Data.List.Infix

/-!
# Batches of messages: `process_all_messages`

For every group of the arguments: the group is loaded with the epochs of its messages, a pending
operation is settled, proposals are inspected (`prePass`), then the messages are processed in order
(`operationLoop`), and the group's result is reported.

* `Inspection`, `Progress`: the mutable variables of the two loops; `error` set means that the second
  loop was left.
* `processAllMessages`.
* `operationLoop_append`: the second loop over a list and then another one.
-/

namespace KChat.Mls

open Lib

/-! ## Arguments and results -/

inductive MessageType
  | welcome | commit | proposal | unknown
  deriving DecidableEq, Repr

structure MlsMessage where
  blob : Bytes
  epoch : ℕ
  sender : String
  messageType : MessageType
  deriving DecidableEq, Repr

structure AllMessagesOfGroupArgs where
  groupId : String
  messages : List MlsMessage
  pendingEpoch : ℤ
  pendingTreeHash : Bytes

inductive GroupErrorCode
  | storage | aead | processCommit
  deriving DecidableEq, Repr

structure GroupError where
  errorCode : GroupErrorCode
  errorMessage : String
  deriving DecidableEq, Repr

structure MemberInfo where
  clientJid : Option String
  mlsClientId : Option String
  mlsFingerprint : Option String
  deriving DecidableEq, Repr

structure GroupResult where
  groupId : String
  membersToRemove : List MemberInfo
  membersToReadd : Finset MemberInfo
  error : Option GroupError

structure ProcessAllMessagesResult where
  groupResults : List GroupResult
  deletedGroups : List String

/-! ## Texts -/

def containsText (text pattern : String) : Bool := decide (pattern.toList <:+: text.toList)

/-- The log line reports a failure that ends the batch. -/
def isFatal (log : String) : Bool :=
  containsText log "Error writing updated group data to storage" ||
    containsText log "database is locked" || containsText log "Error interacting with storage"

def convertToErrorCode (err : Error) : GroupErrorCode :=
  if containsText err.display "An error occurred during AEAD decryption." then .aead
  else if containsText err.display "Storage error" then .storage
  else .processCommit

def loadErrorLog (groupId : String) (err : Error) : String :=
  "process commit - load group data error, group " ++ groupId ++ ": " ++ err.display

def commitErrorLog (groupId : String) (err : Error) : String :=
  "process commit error, group " ++ groupId ++ ": " ++ err.display

def extractJidFromMemberId (id : String) : Option String :=
  if '/' ∈ id.toList then some (String.ofList (id.toList.takeWhile (· ≠ '/'))) else none

def senderMatchesMemberId (memberId sender : String) : Bool :=
  if sender = "" then false
  else memberId == sender || (decide ('/' ∈ memberId.toList) &&
    (memberId.toList.dropWhile (· ≠ '/')).tail == sender.toList)

/-! ## Groups -/

section group

variable {M : OpenMls}

def ownIdFromLeafNode (g : M.Group) : Option String := do
  M.identity (M.credential (← M.ownLeaf g))

def groupMemberIds (g : M.Group) : Finset String :=
  ((M.members g).filterMap M.identity).toFinset

def groupMemberJids (g : M.Group) : Finset String :=
  (((M.members g).filterMap M.identity).filterMap extractJidFromMemberId).toFinset

/-- The commit of the next epoch; epochs are `u64`. -/
def getFirstMessage (groupEpoch : ℕ) (args : AllMessagesOfGroupArgs) (op : GroupPendingOperation) :
    Option MlsMessage :=
  let groupEpoch := if op = .joinByExternalCommit then (groupEpoch + (2 ^ 64 - 1)) % 2 ^ 64
    else groupEpoch
  args.messages.find? fun message =>
    message.epoch = (groupEpoch + 1) % 2 ^ 64 ∧ message.messageType = .commit

end group

variable {M : OpenMls} (env : Surroundings M)

/-! ## A pending operation -/

/-- In one transaction the group is loaded and `change` is called on it. -/
def changeGroup (groupId : String) (change : GroupAction M Unit) : Action M M.Group :=
  mapError .storage (transaction env do
    let g ← group env groupId []
    return (← withSelf g change).2)

def removeGroup (groupId : String) : Action M Unit := do
  let _ ← changeGroup env groupId (deleteGroup env)
  let _ ← attempt (deleteGroupStatus env groupId)

/-- **A pending operation is settled**: the group after it, nothing if it was deleted. -/
def settlePending (args : AllMessagesOfGroupArgs) (existing : M.Group) (ownMemberId : String)
    (op : GroupPendingOperation) : Action M (Option M.Group) := do
  let firstMessage := getFirstMessage (M.epoch existing) args op
  match op with
  | .createGroup | .joinByExternalCommit =>
    if op = .createGroup ∧ M.epoch existing = 0 then
      if args.pendingEpoch = 0 then
        let g ← if M.treeHash existing = args.pendingTreeHash then
            some <$> changeGroup env args.groupId (mergePendingCommit env)
          else (fun _ => none) <$> removeGroup env args.groupId
        let _ ← attempt (insertOrUpdateGroupStatus env args.groupId .none)
        return g
      else return some existing
    else
      let g ← match firstMessage with
        | some msg =>
          if senderMatchesMemberId ownMemberId msg.sender then
            some <$> changeGroup env args.groupId (mergePendingCommit env)
          else (fun _ => none) <$> removeGroup env args.groupId
        | none => (fun _ => none) <$> removeGroup env args.groupId
      let _ ← attempt (insertOrUpdateGroupStatus env args.groupId .none)
      return g
  | .updateTree =>
    let g ← match firstMessage with
      | some msg =>
        if senderMatchesMemberId ownMemberId msg.sender then
          some <$> changeGroup env args.groupId (mergePendingCommit env)
        else some <$> changeGroup env args.groupId (clearPendingCommit env)
      | none => some <$> changeGroup env args.groupId (clearPendingCommit env)
    let _ ← attempt (insertOrUpdateGroupStatus env args.groupId .none)
    return g
  | .leaveGroup | .none => return some existing

/-! ## The inspection of proposals -/

/-- Members to be removed, each with the epoch of the message that proposed it. -/
abbrev Removals : Type := AList fun _ : MemberInfo => ℕ

structure Inspection (M : OpenMls) where
  mlsGroup : Option M.Group
  membersToRemove : Removals
  groupMemberSets : Option (Finset String × Finset String)
  latestEpoch : ℕ

namespace Inspection

def start (mlsGroup : Option M.Group) : Inspection M where
  mlsGroup := mlsGroup
  membersToRemove := ∅
  groupMemberSets := none
  latestEpoch := 0

/-- The member sets, collected from `g` when they are first asked for. -/
def memberSets (p : Inspection M) (g : M.Group) : Finset String × Finset String :=
  p.groupMemberSets.getD (groupMemberIds g, groupMemberJids g)

def markRemoved (p : Inspection M) (info : MemberInfo) (epoch : ℕ) : Inspection M :=
  { p with membersToRemove := p.membersToRemove.insert info epoch }

/-- An MLS proposal was decrypted. -/
def noteProposal (p : Inspection M) (g : M.Group) (msg : MlsMessage) (proposal : QueuedProposal) :
    Inspection M :=
  if proposal.proposal = .remove then
    let sets := p.memberSets g
    let p := { p with groupMemberSets := some sets }
    if proposal.sender ∈ sets.1 then
      p.markRemoved
        { clientJid := extractJidFromMemberId proposal.sender
          mlsClientId := some proposal.sender
          mlsFingerprint := some msg.sender } msg.epoch
    else p
  else p

/-- It is no MLS proposal of the group; it may be a custom proposal. -/
def noteCustomProposal (p : Inspection M) (g : M.Group) (msg : MlsMessage) : Inspection M :=
  match M.customProposal msg.blob with
  | some { clientJid := some clientJid, mlsClientId := _, proposalType := .remove } =>
    let sets := p.memberSets g
    let p := { p with groupMemberSets := some sets }
    if clientJid ∈ sets.2 then
      p.markRemoved { clientJid := some clientJid, mlsClientId := none, mlsFingerprint := none }
        msg.epoch
    else p
  | _ => p

@[simp] theorem noteProposal_mlsGroup (p : Inspection M) (g : M.Group) (msg : MlsMessage)
    (proposal : QueuedProposal) : (p.noteProposal g msg proposal).mlsGroup = p.mlsGroup := by
  unfold noteProposal
  split
  · dsimp only
    split_ifs <;> rfl
  · rfl

@[simp] theorem noteCustomProposal_mlsGroup (p : Inspection M) (g : M.Group) (msg : MlsMessage) :
    (p.noteCustomProposal g msg).mlsGroup = p.mlsGroup := by
  unfold noteCustomProposal
  split
  · dsimp only
    split_ifs <;> rfl
  · rfl

/-- One message of the first loop. The provider is not in a transaction. -/
def step (p : Inspection M) (msg : MlsMessage) (s : Session M) : Inspection M × Session M :=
  let p := if p.latestEpoch < msg.epoch ∧ msg.messageType = .commit then
    { p with latestEpoch := msg.epoch } else p
  match msg.messageType, p.mlsGroup with
  | .proposal, some g =>
    match (processProposalMessage (autocommit env) msg.blob).run ⟨g, s⟩ with
    | .ok proposal t => (noteProposal { p with mlsGroup := some t.self } t.self msg proposal, t.world)
    | .error _ t => (noteCustomProposal { p with mlsGroup := some t.self } t.self msg, t.world)
  | _, _ => (p, s)

end Inspection

/-- **The first loop.** -/
def prePass : List MlsMessage → Inspection M → Session M → Inspection M × Session M
  | [], p, s => (p, s)
  | msg :: messages, p, s =>
    let r := p.step env msg s
    prePass messages r.1 r.2

/-! ## The processing of messages -/

structure Progress (M : OpenMls) where
  mlsGroup : Option M.Group
  commitGroupLoaded : Bool
  membersToRemove : Removals
  membersToReadd : Finset MemberInfo
  error : Option GroupError

namespace Progress

def start (mlsGroup : Option M.Group) (membersToRemove : Removals) : Progress M where
  mlsGroup := mlsGroup
  commitGroupLoaded := false
  membersToRemove := membersToRemove
  membersToReadd := ∅
  error := none

/-- The loop is left with an error. -/
def stop (l : Progress M) (err : Error) (log : String) : Progress M :=
  { l with
    error := some { errorCode := convertToErrorCode err, errorMessage := log }
    membersToRemove := ∅ }

/-- What follows an error: the loop goes on unless the log line reports a fatal one. -/
def stopIfFatal (l : Progress M) (err : Error) (log : String) : Progress M :=
  if isFatal log then l.stop err log else l

@[simp] theorem stopIfFatal_mlsGroup (l : Progress M) (err : Error) (log : String) :
    (l.stopIfFatal err log).mlsGroup = l.mlsGroup := by
  unfold stopIfFatal
  split_ifs <;> rfl

theorem stopIfFatal_of_not {l : Progress M} {err : Error} {log : String} (h : ¬ isFatal log) :
    l.stopIfFatal err log = l := if_neg h

theorem stopIfFatal_error_eq_none {l : Progress M} {err : Error} {log : String} :
    (l.stopIfFatal err log).error = none ↔ ¬ isFatal log ∧ l.error = none := by
  unfold stopIfFatal stop
  split_ifs with h <;> simp [h]

def welcomeArm (config : M.JoinConfig) (msg : MlsMessage) (l : Progress M) (s : Session M) :
    Progress M × Session M :=
  match (transaction env (processWelcome env msg.blob config)).run s with
  | .ok g s => ({ l with mlsGroup := some g }, s)
  | .error _ s => (l, s)

/-- Before the first commit the group is loaded again. -/
def reload (groupId : String) (msg : MlsMessage) (l : Progress M) (s : Session M) :
    Progress M × Session M :=
  if l.commitGroupLoaded then (l, s)
  else
    match (loadGroupWithEpochMessageSecrets env groupId [msg.epoch]).run s with
    | .ok g s => ({ l with mlsGroup := some g, commitGroupLoaded := true }, s)
    | .error err s => (l.stopIfFatal err (loadErrorLog groupId err), s)

/-- A commit is processed on the group in memory, which is put back in any case. -/
def applyCommit (groupId : String) (msg : MlsMessage) (l : Progress M) (s : Session M) :
    Progress M × Session M :=
  match l.mlsGroup with
  | none => (l, s)
  | some g =>
    match (transactionOn env (processOperationMessage env msg.blob)).run ⟨g, s⟩ with
    | .ok _ t => ({ l with mlsGroup := some t.self }, t.world)
    | .error text t =>
      ({ l with mlsGroup := some t.self }.stopIfFatal (.processMessage text)
        (commitErrorLog groupId (.processMessage text)), t.world)

/-- The member a removal is about is no longer in the group. -/
def isGone (g : M.Group) (info : MemberInfo) : Bool :=
  match info.mlsClientId, info.clientJid with
  | some id, _ => decide (id ∉ groupMemberIds g)
  | none, some jid => decide (jid ∉ groupMemberJids g)
  | none, none => false

/-- The members that are gone after a commit need no removal any more. -/
def dropRemoved (msg : MlsMessage) (l : Progress M) : Progress M :=
  match l.mlsGroup with
  | none => l
  | some g =>
    let gone := l.membersToRemove.entries.filter fun e => decide (e.2 ≤ msg.epoch) && isGone g e.1
    let membersToRemove := (gone.map Sigma.fst).foldl (fun m info => m.erase info) l.membersToRemove
    { l with membersToRemove := membersToRemove }

@[simp] theorem dropRemoved_mlsGroup (msg : MlsMessage) (l : Progress M) :
    (dropRemoved msg l).mlsGroup = l.mlsGroup := by
  unfold dropRemoved
  split <;> rename_i h
  · exact h.symm ▸ rfl
  · rfl

@[simp] theorem dropRemoved_error (msg : MlsMessage) (l : Progress M) :
    (dropRemoved msg l).error = l.error := by
  unfold dropRemoved
  split <;> rfl

theorem dropRemoved_commitGroupLoaded (msg : MlsMessage) (l : Progress M) :
    (dropRemoved msg l).commitGroupLoaded = l.commitGroupLoaded := by
  unfold dropRemoved
  split <;> rfl

def commitArm (groupId : String) (msg : MlsMessage) (l : Progress M) (s : Session M) :
    Progress M × Session M :=
  if l.mlsGroup.isSome then
    let r := reload env groupId msg l s
    if r.1.error.isSome then r
    else
      let r := applyCommit env groupId msg r.1 r.2
      if r.1.error.isSome then r else (dropRemoved msg r.1, r.2)
  else (dropRemoved msg l, s)

def proposalArm (latestEpoch : ℕ) (msg : MlsMessage) (l : Progress M) : Progress M :=
  match M.customProposal msg.blob with
  | some { clientJid, mlsClientId, proposalType := .reAdd } =>
    if latestEpoch < msg.epoch then
      let info : MemberInfo :=
        { clientJid := clientJid.or (mlsClientId.bind extractJidFromMemberId)
          mlsClientId := mlsClientId
          mlsFingerprint := some msg.sender }
      { l with membersToReadd := insert info l.membersToReadd }
    else l
  | _ => l

@[simp] theorem proposalArm_mlsGroup (latestEpoch : ℕ) (msg : MlsMessage) (l : Progress M) :
    (proposalArm latestEpoch msg l).mlsGroup = l.mlsGroup := by
  unfold proposalArm
  split
  · split_ifs <;> rfl
  · rfl

@[simp] theorem proposalArm_error (latestEpoch : ℕ) (msg : MlsMessage) (l : Progress M) :
    (proposalArm latestEpoch msg l).error = l.error := by
  unfold proposalArm
  split
  · split_ifs <;> rfl
  · rfl

theorem proposalArm_commitGroupLoaded (latestEpoch : ℕ) (msg : MlsMessage) (l : Progress M) :
    (proposalArm latestEpoch msg l).commitGroupLoaded = l.commitGroupLoaded := by
  unfold proposalArm
  split
  · split_ifs <;> rfl
  · rfl

def step (groupId : String) (config : M.JoinConfig) (latestEpoch : ℕ) (msg : MlsMessage)
    (l : Progress M) (s : Session M) : Progress M × Session M :=
  match msg.messageType with
  | .welcome => welcomeArm env config msg l s
  | .commit => commitArm env groupId msg l s
  | .proposal => (proposalArm latestEpoch msg l, s)
  | .unknown => (l, s)

end Progress

/-- **The second loop**, which is left with an error. -/
def operationLoop (groupId : String) (config : M.JoinConfig) (latestEpoch : ℕ) :
    List MlsMessage → Progress M → Session M → Progress M × Session M
  | [], l, s => (l, s)
  | msg :: messages, l, s =>
    if l.error.isSome then (l, s)
    else
      let r := l.step env groupId config latestEpoch msg s
      operationLoop groupId config latestEpoch messages r.1 r.2

/-! ## One group, and all groups -/

/-- The epochs of the messages other than Welcomes. -/
def preloadEpochs (messages : List MlsMessage) : List ℕ :=
  (messages.filter (·.messageType ≠ .welcome)).map MlsMessage.epoch

/-- Where the messages of a group begin to be processed: its group, deleted or not. Nothing if the
batch is skipped. -/
structure Opening (M : OpenMls) where
  mlsGroup : Option M.Group
  deleted : Bool

def openGroup (args : AllMessagesOfGroupArgs) : Action M (Option (Opening M)) := do
  match ← attempt (loadGroupWithEpochMessageSecrets env args.groupId (preloadEpochs args.messages)) with
  | .error _ => return some { mlsGroup := none, deleted := false }
  | .ok existing =>
    match ownIdFromLeafNode existing with
    | none => return none
    | some ownMemberId =>
      let op := .ofRow (← getGroupPendingOperation env args.groupId)
      let mlsGroup ← settlePending env args existing ownMemberId op
      return some { mlsGroup := mlsGroup, deleted := mlsGroup.isNone }

/-- The second loop after `front`, behind the first loop over all messages. -/
def progressAfter (config : M.JoinConfig) (args : AllMessagesOfGroupArgs)
    (mlsGroup : Option M.Group) (s : Session M) (front : List MlsMessage) :
    Progress M × Session M :=
  let r := prePass env args.messages (.start mlsGroup) s
  operationLoop env args.groupId config r.1.latestEpoch front
    (.start r.1.mlsGroup r.1.membersToRemove) r.2

def processMessages (config : M.JoinConfig) (args : AllMessagesOfGroupArgs)
    (mlsGroup : Option M.Group) (s : Session M) : Progress M × Session M :=
  progressAfter env config args mlsGroup s args.messages

/-- One group: its result, if its batch is not skipped, and whether it was deleted. -/
def processGroup (config : M.JoinConfig) (args : AllMessagesOfGroupArgs) :
    Action M (Option GroupResult × Bool) := do
  match ← openGroup env args with
  | none => return (none, false)
  | some opening =>
    let r := processMessages env config args opening.mlsGroup (← get)
    set r.2
    return (some
      { groupId := args.groupId
        membersToRemove := r.1.membersToRemove.keys
        membersToReadd := r.1.membersToReadd
        error := r.1.error }, opening.deleted)

def processAllMessages (config : M.JoinConfig) :
    List AllMessagesOfGroupArgs → Action M ProcessAllMessagesResult
  | [] => return { groupResults := [], deletedGroups := [] }
  | args :: rest => do
    let r ← processGroup env config args
    let result ← processAllMessages config rest
    return { groupResults := r.1.toList ++ result.groupResults
             deletedGroups := (if r.2 then [args.groupId] else []) ++ result.deletedGroups }

/-! ## The second loop, piece by piece -/

variable {env}

namespace Progress

variable {groupId : String} {msg : MlsMessage} {l : Progress M} {s : Session M}

theorem welcomeArm_of_ok {config : M.JoinConfig} {g : M.Group} {s' : Session M}
    (h : (transaction env (processWelcome env msg.blob config)).run s = .ok g s') :
    welcomeArm env config msg l s = ({ l with mlsGroup := some g }, s') := by
  rw [welcomeArm, h]

theorem welcomeArm_of_error {config : M.JoinConfig} {text : String} {s' : Session M}
    (h : (transaction env (processWelcome env msg.blob config)).run s = .error text s') :
    welcomeArm env config msg l s = (l, s') := by
  rw [welcomeArm, h]

theorem reload_of_loaded (h : l.commitGroupLoaded) : reload env groupId msg l s = (l, s) :=
  if_pos h

theorem reload_of_ok (h : ¬ l.commitGroupLoaded) {g : M.Group} {s' : Session M}
    (hrun : (loadGroupWithEpochMessageSecrets env groupId [msg.epoch]).run s = .ok g s') :
    reload env groupId msg l s =
      ({ l with mlsGroup := some g, commitGroupLoaded := true }, s') := by
  rw [reload, if_neg h, hrun]

theorem reload_of_error (h : ¬ l.commitGroupLoaded) {err : Error} {s' : Session M}
    (hrun : (loadGroupWithEpochMessageSecrets env groupId [msg.epoch]).run s = .error err s') :
    reload env groupId msg l s = (l.stopIfFatal err (loadErrorLog groupId err), s') := by
  rw [reload, if_neg h, hrun]

theorem applyCommit_of_none (hg : l.mlsGroup = none) :
    applyCommit env groupId msg l s = (l, s) := by
  unfold applyCommit
  rw [hg]

theorem applyCommit_of_ok {g : M.Group} (hg : l.mlsGroup = some g)
    {r : ProcessOperationMessageResult} {t : Owning M.Group (Session M)}
    (hrun : (transactionOn env (processOperationMessage env msg.blob)).run ⟨g, s⟩ = .ok r t) :
    applyCommit env groupId msg l s = ({ l with mlsGroup := some t.self }, t.world) := by
  unfold applyCommit
  rw [hg]
  dsimp only
  rw [hrun]

theorem applyCommit_of_error {g : M.Group} (hg : l.mlsGroup = some g) {text : String}
    {t : Owning M.Group (Session M)}
    (hrun : (transactionOn env (processOperationMessage env msg.blob)).run ⟨g, s⟩ = .error text t) :
    applyCommit env groupId msg l s =
      ({ l with mlsGroup := some t.self }.stopIfFatal (.processMessage text)
        (commitErrorLog groupId (.processMessage text)), t.world) := by
  unfold applyCommit
  rw [hg]
  dsimp only
  rw [hrun]

theorem commitArm_of_continue (hg : l.mlsGroup.isSome)
    (hreload : (reload env groupId msg l s).1.error = none)
    (happly : (applyCommit env groupId msg (reload env groupId msg l s).1
      (reload env groupId msg l s).2).1.error = none) :
    commitArm env groupId msg l s =
      (dropRemoved msg (applyCommit env groupId msg (reload env groupId msg l s).1
        (reload env groupId msg l s).2).1,
      (applyCommit env groupId msg (reload env groupId msg l s).1
        (reload env groupId msg l s).2).2) := by
  unfold commitArm
  rw [if_pos hg, if_neg (by rw [hreload]; simp), if_neg (by rw [happly]; simp)]

/-- **What a commit arm does that goes on**: nothing without a group, else it may load the group
and processes the commit. -/
theorem commitArm_cases (h : (commitArm env groupId msg l s).1.error = none) :
    (l.mlsGroup = none ∧ commitArm env groupId msg l s = (dropRemoved msg l, s)) ∨
    (l.mlsGroup.isSome ∧ (reload env groupId msg l s).1.error = none ∧
      (applyCommit env groupId msg (reload env groupId msg l s).1
        (reload env groupId msg l s).2).1.error = none) := by
  unfold commitArm at h ⊢
  by_cases hg : l.mlsGroup.isSome
  · refine .inr ⟨hg, ?_⟩
    rw [if_pos hg] at h
    dsimp only at h
    split at h
    · rename_i hreload
      rw [h] at hreload
      cases hreload
    · rename_i hreload
      refine ⟨Option.not_isSome_iff_eq_none.mp hreload, ?_⟩
      split at h
      · exact h
      · rename_i happly
        exact Option.not_isSome_iff_eq_none.mp happly
  · exact .inl ⟨Option.not_isSome_iff_eq_none.mp hg, if_neg hg⟩

end Progress

theorem operationLoop_of_error {groupId : String} {config : M.JoinConfig} {latestEpoch : ℕ}
    {messages : List MlsMessage} {l : Progress M} {s : Session M} (h : l.error.isSome) :
    operationLoop env groupId config latestEpoch messages l s = (l, s) := by
  cases messages with
  | nil => rfl
  | cons msg messages => rw [operationLoop, if_pos h]

/-- **The loop over a list and then over another.** -/
theorem operationLoop_append {groupId : String} {config : M.JoinConfig} {latestEpoch : ℕ}
    {front back : List MlsMessage} {l : Progress M} {s : Session M} :
    operationLoop env groupId config latestEpoch (front ++ back) l s =
      operationLoop env groupId config latestEpoch back
        (operationLoop env groupId config latestEpoch front l s).1
        (operationLoop env groupId config latestEpoch front l s).2 := by
  induction front generalizing l s with
  | nil => rfl
  | cons msg front ih =>
    by_cases h : l.error.isSome
    · rw [operationLoop_of_error h, operationLoop_of_error h, operationLoop_of_error h]
    · rw [List.cons_append, operationLoop, operationLoop, if_neg h, if_neg h]
      exact ih

/-- **One more message** of the second loop. -/
theorem progressAfter_concat {config : M.JoinConfig} {args : AllMessagesOfGroupArgs}
    {mlsGroup : Option M.Group} {s : Session M} {front : List MlsMessage} {msg : MlsMessage}
    (h : (progressAfter env config args mlsGroup s front).1.error = none) :
    progressAfter env config args mlsGroup s (front ++ [msg]) =
      (progressAfter env config args mlsGroup s front).1.step env args.groupId config
        (prePass env args.messages (.start mlsGroup) s).1.latestEpoch msg
        (progressAfter env config args mlsGroup s front).2 := by
  rw [progressAfter, operationLoop_append, operationLoop, if_neg]
  · rfl
  · rw [progressAfter] at h
    rw [h]
    simp

theorem progressAfter_append_of_error {config : M.JoinConfig} {args : AllMessagesOfGroupArgs}
    {mlsGroup : Option M.Group} {s : Session M} {front back : List MlsMessage}
    (h : (progressAfter env config args mlsGroup s front).1.error.isSome) :
    progressAfter env config args mlsGroup s (front ++ back) =
      progressAfter env config args mlsGroup s front := by
  rw [progressAfter] at h
  rw [progressAfter, operationLoop_append, operationLoop_of_error h]
  rfl

theorem progressAfter_error {config : M.JoinConfig} {args : AllMessagesOfGroupArgs}
    {mlsGroup : Option M.Group} {s : Session M} {front back : List MlsMessage}
    (h : (progressAfter env config args mlsGroup s (front ++ back)).1.error = none) :
    (progressAfter env config args mlsGroup s front).1.error = none := by
  by_contra hne
  rw [progressAfter_append_of_error (Option.isSome_iff_ne_none.mpr hne)] at h
  exact hne h

end KChat.Mls
